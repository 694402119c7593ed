import Act.Basic.Run
import Mathlib.Algebra.Order.BigOperators.Group.Finset

set_option autoImplicit false

/-! # The descriptor pools

Each device keeps the descriptors it is not using in `p_fd_queue`. `fd_get` pops one, or opens
the device when the queue is empty; `fd_put` pushes it back after a transfer that
succeeded, and `read_from_device` and `write_to_device` close it instead when the seek or
the transfer failed. `discover_num_blocks` gets one and puts it back. At shutdown `main`
joins the I/O threads and then runs `fd_close_all` on each device, which pops and closes
until the queue is empty.

The model has `C` threads that call these functions on `D` devices, and the process's
descriptor table: which device each descriptor number is open on. `open` returns a
number that is not open; the number of a closed descriptor may come back. Each queue
operation is one step (the queue takes a lock), and so are `open` and `close`. A pop of
an empty pool and the `open` that follows it are one step of `fdGet`: `open` reads no pool,
so in a run where other threads step in between, the `open` can be moved up to the failed
pop, with its number renamed to a fresh one if another thread took it meanwhile; nothing
proved here depends on which number a descriptor has.

At every state of every interleaving an open descriptor is in exactly one place, one slot
of the pool of the device it was opened on or one thread's hands, and a closed one is in
none (`descriptors_exclusive`). Once the threads are joined, the `fd_close_all` loops run
to their end and leave nothing open. And since `open` happens only on an empty pool, a
device never has more descriptors open than there are threads (`openDescriptors_le`).
-/

namespace Act.FdPool

open Finset

/-- What an I/O thread holds: nothing, or descriptor `fd` of device `d`, between its
`fd_get` and its `fd_put` or `close`. -/
inductive Holder (D : Nat) where
  | idle
  | holding (d : Fin D) (fd : Nat)
deriving DecidableEq, Repr

/-- The pools, the threads, and the process's descriptor table. -/
structure State (C D : Nat) where
  /-- `g_devices[d].p_fd_queue`. -/
  pools : Fin D → List Nat
  threads : Fin C → Holder D
  /-- The device each descriptor number is open on, `none` if it is not open. -/
  opened : Nat → Option (Fin D)

/-- One step: a thread's `fd_get`, `fd_put` or `close`, or one pass of `fd_close_all`. -/
inductive Action (C D : Nat) where
  /-- Thread `c` calls `fd_get` on device `d`; if the pool is empty, `open` succeeds
  (`openOk`) and returns `fd`, or fails. -/
  | get (c : Fin C) (d : Fin D) (fd : Nat) (openOk : Bool)
  /-- Thread `c` calls `fd_put` after a transfer that succeeded. -/
  | put (c : Fin C)
  /-- Thread `c` closes its descriptor after a failed seek or transfer. -/
  | close (c : Fin C)
  /-- `fd_close_all` on device `d` pops a descriptor and closes it. -/
  | closeOne (d : Fin D)

variable {C D : Nat}

/-- Nothing pooled, held or open: before `discover_num_blocks` runs. -/
def init : State C D where
  pools := fun _ => []
  threads := fun _ => .idle
  opened := fun _ => none

/-- `fd_get`. A thread that holds a descriptor is inside a transfer and cannot call it. -/
def fdGet (s : State C D) (c : Fin C) (d : Fin D) (fd : Nat) (openOk : Bool) :
    Option (State C D) :=
  match s.threads c with
  | .holding _ _ => none
  | .idle =>
    match s.pools d with
    | fd' :: rest =>
      some { s with
        pools := Function.update s.pools d rest
        threads := Function.update s.threads c (.holding d fd') }
    | [] =>
      if openOk then
        if s.opened fd = none then
          some { s with
            threads := Function.update s.threads c (.holding d fd)
            opened := Function.update s.opened fd (some d) }
        else none
      else some s

/-- `fd_put`. -/
def fdPut (s : State C D) (c : Fin C) : Option (State C D) :=
  match s.threads c with
  | .holding d fd =>
    some { s with
      pools := Function.update s.pools d (s.pools d ++ [fd])
      threads := Function.update s.threads c .idle }
  | .idle => none

/-- The `close(fd)` of the error paths of `read_from_device` and `write_to_device`. -/
def closeHeld (s : State C D) (c : Fin C) : Option (State C D) :=
  match s.threads c with
  | .holding _ fd =>
    some { s with
      threads := Function.update s.threads c .idle
      opened := Function.update s.opened fd none }
  | .idle => none

/-- One pass of the loop of `fd_close_all`; `none` once the queue is empty and the loop
has ended. -/
def fdCloseOne (s : State C D) (d : Fin D) : Option (State C D) :=
  match s.pools d with
  | fd :: rest =>
    some { s with
      pools := Function.update s.pools d rest
      opened := Function.update s.opened fd none }
  | [] => none

def step (s : State C D) : Action C D → Option (State C D)
  | .get c d fd openOk => fdGet s c d fd openOk
  | .put c => fdPut s c
  | .close c => closeHeld s c
  | .closeOne d => fdCloseOne s d

/-- The states some interleaving of the I/O threads and the shutdown reaches. -/
def Reachable (s : State C D) : Prop := Reach step (Eq init) s

/-! ## Where a descriptor is -/

/-- `1` if the thread holds descriptor `fd`. -/
def Holder.heldCount (fd : Nat) : Holder D → Nat
  | .idle => 0
  | .holding _ fd' => if fd' = fd then 1 else 0

/-- The places descriptor `fd` is in: pool slots and threads' hands. -/
def places (s : State C D) (fd : Nat) : Nat :=
  ∑ d, (s.pools d).count fd + ∑ c, (s.threads c).heldCount fd

/-- The exclusivity invariant: an open descriptor is in one place and a closed one in none;
a pooled or held descriptor is open on the device whose pool it belongs to. -/
structure Exclusive (s : State C D) : Prop where
  placed : ∀ fd, places s fd = if s.opened fd = none then 0 else 1
  pooled : ∀ d fd, fd ∈ s.pools d → s.opened fd = some d
  held : ∀ c d fd, s.threads c = .holding d fd → s.opened fd = some d

theorem count_le_sum (s : State C D) (d : Fin D) (fd : Nat) :
    (s.pools d).count fd ≤ ∑ d, (s.pools d).count fd :=
  Finset.single_le_sum (f := fun d => (s.pools d).count fd) (fun _ _ => Nat.zero_le _)
    (Finset.mem_univ d)

/-- Two of the terms of a sum over a finite type. -/
theorem add_le_sum_univ {ι : Type} [Fintype ι] [DecidableEq ι] (f : ι → Nat) {i j : ι}
    (hne : i ≠ j) : f i + f j ≤ ∑ k, f k := by
  rw [← Finset.sum_pair hne]
  exact Finset.sum_le_sum_of_subset (Finset.subset_univ _)

theorem heldCount_le_sum (s : State C D) (c : Fin C) (fd : Nat) :
    (s.threads c).heldCount fd ≤ ∑ c, (s.threads c).heldCount fd :=
  Finset.single_le_sum (f := fun c => (s.threads c).heldCount fd) (fun _ _ => Nat.zero_le _)
    (Finset.mem_univ c)

theorem heldCount_holding {s : State C D} {c : Fin C} {d : Fin D} {fd : Nat}
    (h : s.threads c = .holding d fd) : (s.threads c).heldCount fd = 1 := by
  rw [h]; exact if_pos rfl

theorem Exclusive.places_le {s : State C D} (hi : Exclusive s) (fd : Nat) :
    ∑ d, (s.pools d).count fd + ∑ c, (s.threads c).heldCount fd ≤ 1 := by
  have := hi.placed fd
  unfold places at this
  split at this <;> omega

/-- A held descriptor is in no pool and in no other thread's hands. -/
theorem Exclusive.held_only {s : State C D} (hi : Exclusive s) {c : Fin C} {d : Fin D}
    {fd : Nat} (h : s.threads c = .holding d fd) :
    (∀ d', fd ∉ s.pools d') ∧ ∀ c', c' ≠ c → (s.threads c').heldCount fd = 0 := by
  have h1 := heldCount_holding h
  have hle := hi.places_le fd
  have := heldCount_le_sum s c fd
  refine ⟨fun d' hd => ?_, fun c' hc => ?_⟩
  · have := count_le_sum s d' fd
    have := List.count_pos_iff.2 hd
    omega
  · have := add_le_sum_univ (fun c => (s.threads c).heldCount fd) hc
    beta_reduce at this
    omega

/-- A pooled descriptor is in no other slot and in no thread's hands. -/
theorem Exclusive.pooled_only {s : State C D} (hi : Exclusive s) {d : Fin D} {fd : Nat}
    {rest : List Nat} (h : s.pools d = fd :: rest) :
    fd ∉ rest ∧ (∀ d', d' ≠ d → fd ∉ s.pools d') ∧
      ∀ c, (s.threads c).heldCount fd = 0 := by
  have hle := hi.places_le fd
  have hd := count_le_sum s d fd
  rw [h, List.count_cons_self] at hd
  refine ⟨fun hr => ?_, fun d' hne hd' => ?_, fun c => ?_⟩
  · have := List.count_pos_iff.2 hr
    omega
  · have hpair := add_le_sum_univ (fun d => (s.pools d).count fd) hne
    have := List.count_pos_iff.2 hd'
    simp only [h, List.count_cons_self] at hpair
    omega
  · have := heldCount_le_sum s c fd
    omega

/-! ## The invariant holds at every reachable state -/

theorem exclusive_init : Exclusive (init : State C D) where
  placed fd := by simp [places, init, Holder.heldCount]
  pooled := by simp [init]
  held := by simp [init]

/-- How the count of pool slots holding `fd` changes when one pool is replaced. -/
theorem sum_count_update (pools : Fin D → List Nat) (d : Fin D) (l : List Nat) (fd : Nat) :
    ∑ d', (Function.update pools d l d').count fd + (pools d).count fd =
      ∑ d', (pools d').count fd + l.count fd :=
  sum_update_add (fun l => l.count fd) pools d l

/-- How the count of threads holding `fd` changes when one thread moves. -/
theorem sum_heldCount_update (threads : Fin C → Holder D) (c : Fin C) (h : Holder D)
    (fd : Nat) :
    ∑ c', (Function.update threads c h c').heldCount fd + (threads c).heldCount fd =
      ∑ c', (threads c').heldCount fd + h.heldCount fd :=
  sum_update_add (Holder.heldCount fd) threads c h

theorem exclusive_get {s s' : State C D} {c : Fin C} {d : Fin D} {fd : Nat} {openOk : Bool}
    (hi : Exclusive s) (h : fdGet s c d fd openOk = some s') : Exclusive s' := by
  unfold fdGet at h
  split at h
  · cases h
  next hc =>
  split at h
  next fd' rest hp =>
    -- a pooled descriptor moves from the head of the queue to the thread
    cases h
    refine ⟨fun x => ?_, fun d'' x hx => ?_, fun c'' d'' x hx => ?_⟩
    · have := hi.placed x
      have := sum_count_update s.pools d rest x
      have := sum_heldCount_update s.threads c (.holding d fd') x
      simp only [places, hp, hc, Holder.heldCount, List.count_cons, beq_iff_eq] at *
      omega
    · dsimp only at hx ⊢
      by_cases hd : d'' = d
      · subst hd
        rw [Function.update_same] at hx
        exact hi.pooled _ x (hp ▸ List.mem_cons_of_mem fd' hx)
      · exact hi.pooled d'' x (by rwa [Function.update_noteq hd] at hx)
    · dsimp only at hx ⊢
      by_cases hcc : c'' = c
      · subst hcc
        obtain ⟨rfl, rfl⟩ : d = d'' ∧ fd' = x := by simpa using hx
        exact hi.pooled d fd' (hp ▸ List.mem_cons_self fd' rest)
      · exact hi.held c'' d'' x (by rwa [Function.update_noteq hcc] at hx)
  next hp =>
  split at h
  · split at h
    next hfd =>
      -- `open` returns a descriptor that was not open
      cases h
      refine ⟨fun x => ?_, fun d'' x hx => ?_, fun c'' d'' x hx => ?_⟩
      · have e1 := hi.placed x
        have e2 := sum_heldCount_update s.threads c (.holding d fd) x
        simp only [places, hc, Holder.heldCount] at e1 e2 ⊢
        by_cases hxf : x = fd
        · subst hxf
          simp only [Function.update_same, hfd, reduceCtorEq, if_true, if_false] at e1 e2 ⊢
          omega
        · simp only [Function.update_noteq hxf, Ne.symm hxf, if_false] at e2 ⊢
          omega
      · dsimp only at hx ⊢
        have hne : x ≠ fd := fun he => by simp [he ▸ hi.pooled d'' x hx] at hfd
        rw [Function.update_noteq hne]
        exact hi.pooled d'' x hx
      · dsimp only at hx ⊢
        by_cases hcc : c'' = c
        · subst hcc
          obtain ⟨rfl, rfl⟩ : d = d'' ∧ fd = x := by simpa using hx
          exact Function.update_same _ _ _
        · rw [Function.update_noteq hcc] at hx
          have hne : x ≠ fd := fun he => by simp [he ▸ hi.held c'' d'' x hx] at hfd
          rw [Function.update_noteq hne]
          exact hi.held c'' d'' x hx
    · cases h
  · cases h; exact hi

theorem exclusive_put {s s' : State C D} {c : Fin C} (hi : Exclusive s)
    (h : fdPut s c = some s') : Exclusive s' := by
  unfold fdPut at h
  split at h
  next d fd hc =>
    cases h
    refine ⟨fun x => ?_, fun d'' x hx => ?_, fun c'' d'' x hx => ?_⟩
    · have := hi.placed x
      have := sum_count_update s.pools d (s.pools d ++ [fd]) x
      have := sum_heldCount_update s.threads c .idle x
      simp only [places, hc, Holder.heldCount, List.count_append, List.count_singleton,
        beq_iff_eq] at *
      omega
    · dsimp only at hx ⊢
      by_cases hd : d'' = d
      · subst hd
        rw [Function.update_same] at hx
        rcases List.mem_append.1 hx with hx | hx
        · exact hi.pooled _ x hx
        · rw [List.mem_singleton.1 hx]; exact hi.held c _ fd hc
      · exact hi.pooled d'' x (by rwa [Function.update_noteq hd] at hx)
    · dsimp only at hx ⊢
      by_cases hcc : c'' = c
      · subst hcc; simp at hx
      · exact hi.held c'' d'' x (by rwa [Function.update_noteq hcc] at hx)
  · cases h

theorem exclusive_close {s s' : State C D} {c : Fin C} (hi : Exclusive s)
    (h : closeHeld s c = some s') : Exclusive s' := by
  unfold closeHeld at h
  split at h
  next d fd hc =>
    cases h
    obtain ⟨hpool, hother⟩ := hi.held_only hc
    refine ⟨fun x => ?_, fun d'' x hx => ?_, fun c'' d'' x hx => ?_⟩
    · have e1 := hi.placed x
      have e2 := sum_heldCount_update s.threads c .idle x
      simp only [places, hc, Holder.heldCount] at e1 e2 ⊢
      by_cases hxf : x = fd
      · subst hxf
        simp only [Function.update_same, hi.held c d x hc, reduceCtorEq, if_true, if_false]
          at e1 e2 ⊢
        omega
      · simp only [Function.update_noteq hxf, Ne.symm hxf, if_false] at e2 ⊢
        omega
    · dsimp only at hx ⊢
      have hne : x ≠ fd := fun he => hpool d'' (he ▸ hx)
      rw [Function.update_noteq hne]
      exact hi.pooled d'' x hx
    · dsimp only at hx ⊢
      by_cases hcc : c'' = c
      · subst hcc; simp at hx
      · rw [Function.update_noteq hcc] at hx
        have hne : x ≠ fd := fun he => by
          have := hother c'' hcc
          rw [hx, he, Holder.heldCount, if_pos rfl] at this
          exact absurd this one_ne_zero
        rw [Function.update_noteq hne]
        exact hi.held c'' d'' x hx
  · cases h

theorem exclusive_closeOne {s s' : State C D} {d : Fin D} (hi : Exclusive s)
    (h : fdCloseOne s d = some s') : Exclusive s' := by
  unfold fdCloseOne at h
  split at h
  next fd rest hp =>
    cases h
    obtain ⟨hrest, hpool, hheld⟩ := hi.pooled_only hp
    refine ⟨fun x => ?_, fun d'' x hx => ?_, fun c'' d'' x hx => ?_⟩
    · have e1 := hi.placed x
      have e2 := sum_count_update s.pools d rest x
      simp only [places, hp, List.count_cons, beq_iff_eq] at e1 e2 ⊢
      by_cases hxf : x = fd
      · subst hxf
        simp only [Function.update_same, hi.pooled d x (hp ▸ List.mem_cons_self x rest),
          List.count_eq_zero_of_not_mem hrest, reduceCtorEq, if_true, if_false] at e1 e2 ⊢
        omega
      · simp only [Function.update_noteq hxf, Ne.symm hxf, if_false] at e2 ⊢
        omega
    · dsimp only at hx ⊢
      have hne : x ≠ fd := by
        rintro rfl
        by_cases hd : d'' = d
        · subst hd; rw [Function.update_same] at hx; exact hrest hx
        · exact hpool d'' hd (by rwa [Function.update_noteq hd] at hx)
      rw [Function.update_noteq hne]
      by_cases hd : d'' = d
      · subst hd
        rw [Function.update_same] at hx
        exact hi.pooled _ x (hp ▸ List.mem_cons_of_mem fd hx)
      · exact hi.pooled d'' x (by rwa [Function.update_noteq hd] at hx)
    · dsimp only at hx ⊢
      have hne : x ≠ fd := fun he => by
        have := hheld c''
        rw [hx, he, Holder.heldCount, if_pos rfl] at this
        exact absurd this one_ne_zero
      rw [Function.update_noteq hne]
      exact hi.held c'' d'' x hx
  · cases h

theorem exclusive_step {s s' : State C D} {a : Action C D} (hi : Exclusive s)
    (h : step s a = some s') : Exclusive s' := by
  cases a with
  | get c d fd openOk => exact exclusive_get hi h
  | put c => exact exclusive_put hi h
  | close c => exact exclusive_close hi h
  | closeOne d => exact exclusive_closeOne hi h

theorem exclusive_reachable {s : State C D} (h : Reachable s) : Exclusive s :=
  Reach.inv (fun _ hs => hs ▸ exclusive_init) (fun _ _ _ => exclusive_step) h

/-! ## Shutdown -/

/-- With no thread holding a descriptor and every pool empty, nothing is open. -/
theorem Exclusive.nothing_open {s : State C D} (hi : Exclusive s)
    (hidle : ∀ c, s.threads c = .idle) (hempty : ∀ d, s.pools d = []) (fd : Nat) :
    s.opened fd = none := by
  have := hi.placed fd
  simp only [places, hidle, hempty, Holder.heldCount, List.count_nil, Finset.sum_const_zero,
    add_zero] at this
  by_contra hne
  simp [hne] at this

/-- `main`'s shutdown after the joins: `fd_close_all` on each device of `ds` in turn, each
loop popping and closing the descriptors pooled in `s`. -/
def closeAll (s : State C D) : List (Fin D) → List (Action C D)
  | [] => []
  | d :: ds => List.replicate (s.pools d).length (.closeOne d) ++ closeAll s ds

theorem closeAll_congr {s t : State C D} :
    ∀ {ds : List (Fin D)}, (∀ d ∈ ds, s.pools d = t.pools d) → closeAll s ds = closeAll t ds
  | [], _ => rfl
  | d :: ds, h => by
    simp only [closeAll, h d (List.mem_cons_self d ds),
      closeAll_congr fun d' hd' => h d' (List.mem_cons_of_mem d hd')]

/-- The loop of `fd_close_all` on `d` runs to its end: it empties `d`'s pool and touches
neither the other pools nor the threads. -/
theorem drain_run (d : Fin D) :
    ∀ (n : Nat) (s : State C D), (s.pools d).length = n →
      ∃ s', runSteps step s (List.replicate n (.closeOne d)) = some s' ∧ s'.pools d = [] ∧
        (∀ d', d' ≠ d → s'.pools d' = s.pools d') ∧ s'.threads = s.threads
  | 0, s, hn => ⟨s, rfl, List.length_eq_zero.1 hn, fun _ _ => rfl, rfl⟩
  | n + 1, s, hn => by
    obtain ⟨fd, rest, hp⟩ : ∃ fd rest, s.pools d = fd :: rest :=
      List.exists_cons_of_length_eq_add_one hn
    let s₁ : State C D :=
      { s with pools := Function.update s.pools d rest, opened := Function.update s.opened fd none }
    have h₁ : step s (.closeOne d) = some s₁ := by simp only [step, fdCloseOne, hp]
    have hn₁ : (s₁.pools d).length = n := by
      simp only [s₁, Function.update_same]; simpa [hp] using hn
    obtain ⟨s', hrun, hd, hother, hth⟩ := drain_run d n s₁ hn₁
    refine ⟨s', by simp only [List.replicate_succ, runSteps, h₁, Option.some_bind, hrun], hd,
      fun d' hne => ?_, hth⟩
    rw [hother d' hne]
    exact Function.update_noteq hne _ _

/-- `fd_close_all` on each device of a list without repeats runs to its end and empties
their pools. -/
theorem closeAll_run :
    ∀ (ds : List (Fin D)), ds.Nodup → ∀ s : State C D,
      ∃ s', runSteps step s (closeAll s ds) = some s' ∧ (∀ d ∈ ds, s'.pools d = []) ∧
        (∀ d, d ∉ ds → s'.pools d = s.pools d) ∧ s'.threads = s.threads
  | [], _, s => ⟨s, rfl, fun _ h => absurd h (List.not_mem_nil _), fun _ _ => rfl, rfl⟩
  | d :: ds, hnd, s => by
    obtain ⟨hd, hnd⟩ := List.nodup_cons.1 hnd
    obtain ⟨s₁, hrun₁, hd₁, hother₁, hth₁⟩ := drain_run d _ s rfl
    obtain ⟨s', hrun, hds, hother, hth⟩ := closeAll_run ds hnd s₁
    have hcongr : closeAll s ds = closeAll s₁ ds :=
      closeAll_congr fun d' hd' => (hother₁ d' fun he => hd (he ▸ hd')).symm
    refine ⟨s', ?_, fun d' hd' => ?_, fun d' hd' => ?_, hth.trans hth₁⟩
    · rw [closeAll, runSteps_append, hrun₁, Option.some_bind, hcongr, hrun]
    · rcases List.mem_cons.1 hd' with rfl | hd'
      · rw [hother d' hd, hd₁]
      · exact hds d' hd'
    · rw [hother d' fun h => hd' (List.mem_cons_of_mem d h),
        hother₁ d' fun h => hd' (h ▸ List.mem_cons_self d ds)]

/-! ## Every descriptor in one place -/

/-- At every state of every interleaving, an open descriptor is in exactly one place and a
closed one in none; a pooled descriptor is open on the device of its pool and in one slot
of it; a held descriptor is open on its device, in no pool and in no other thread's hands.
Once the threads are joined and the pools emptied nothing is open, and from any state with
the threads joined, `fd_close_all` on every device runs to its end and closes
everything. -/
theorem descriptors_exclusive {s : State C D} (h : Reachable s) :
    (∀ fd, places s fd = if s.opened fd = none then 0 else 1) ∧
      (∀ d fd, fd ∈ s.pools d → s.opened fd = some d ∧ (s.pools d).count fd = 1) ∧
      (∀ c d fd, s.threads c = .holding d fd → s.opened fd = some d ∧
        (∀ d', fd ∉ s.pools d') ∧ ∀ c', c' ≠ c → (s.threads c').heldCount fd = 0) ∧
      ((∀ c, s.threads c = .idle) → (∀ d, s.pools d = []) → ∀ fd, s.opened fd = none) ∧
      ((∀ c, s.threads c = .idle) → ∃ s', runSteps step s (closeAll s (List.finRange D)) =
        some s' ∧ (∀ d, s'.pools d = []) ∧ ∀ fd, s'.opened fd = none) := by
  have hi := exclusive_reachable h
  refine ⟨hi.placed, fun d fd hd => ⟨hi.pooled d fd hd, ?_⟩,
    fun c d fd hc => ⟨hi.held c d fd hc, hi.held_only hc⟩, hi.nothing_open, fun hidle => ?_⟩
  · have := hi.places_le fd
    have := count_le_sum s d fd
    have := List.count_pos_iff.2 hd
    omega
  · obtain ⟨s', hrun, hempty, -, hth⟩ := closeAll_run _ (List.nodup_finRange D) s
    have hempty' : ∀ d, s'.pools d = [] := fun d => hempty d (List.mem_finRange d)
    refine ⟨s', hrun, hempty', (exclusive_reachable (Reach.runSteps h hrun)).nothing_open
      (fun c => by rw [hth]; exact hidle c) hempty'⟩

/-- Two threads on one device: the first opens descriptor 3 and puts it back; the second
opens 4, fails its transfer and closes it; the first gets 3 again from the pool and puts it
back. -/
def reuseRun : List (Action 2 1) :=
  [.get 0 0 3 true, .get 1 0 4 true, .put 0, .close 1, .get 0 0 5 true, .put 0]

/-- The descriptor facts after `reuseRun`: 3 is pooled, 4 closed. -/
theorem descriptors_exclusive_reuseRun :
    ∃ s : State 2 1, Reachable s ∧ s.pools 0 = [3] ∧ s.opened 4 = none ∧
      ((∀ fd, places s fd = if s.opened fd = none then 0 else 1) ∧
      (∀ d fd, fd ∈ s.pools d → s.opened fd = some d ∧ (s.pools d).count fd = 1) ∧
      (∀ c d fd, s.threads c = .holding d fd → s.opened fd = some d ∧
        (∀ d', fd ∉ s.pools d') ∧ ∀ c', c' ≠ c → (s.threads c').heldCount fd = 0) ∧
      ((∀ c, s.threads c = .idle) → (∀ d, s.pools d = []) → ∀ fd, s.opened fd = none) ∧
      ((∀ c, s.threads c = .idle) → ∃ s', runSteps step s (closeAll s (List.finRange 1)) =
        some s' ∧ (∀ d, s'.pools d = []) ∧ ∀ fd, s'.opened fd = none)) := by
  obtain ⟨s, hs, hp⟩ : ∃ s : State 2 1, Reachable s ∧
      decide (s.pools 0 = [3] ∧ s.opened 4 = none) = true :=
    exists_reach_of_runSteps init rfl reuseRun _ (by decide)
  have hp := of_decide_eq_true hp
  exact ⟨s, hs, hp.1, hp.2, descriptors_exclusive hs⟩

/-! ## At most one descriptor per thread and device

`fd_get` opens a descriptor only when the pool of its device is empty, so every descriptor
of that device is then in some other thread's hands. A pool grows only by `fd_put`, from a
thread's hands. So a device never has more descriptors open than there are threads. -/

/-- `1` if the thread holds a descriptor of device `d`. -/
def Holder.onCount (d : Fin D) : Holder D → Nat
  | .idle => 0
  | .holding d' _ => if d' = d then 1 else 0

theorem Holder.onCount_holding (d d' : Fin D) (fd : Nat) :
    (Holder.holding d' fd).onCount d = if d' = d then 1 else 0 := rfl

/-- The pool of each device and the threads holding one of its descriptors number at most
the threads. -/
def Bounded (s : State C D) : Prop :=
  ∀ d, (s.pools d).length + ∑ c, (s.threads c).onCount d ≤ C

theorem Holder.onCount_le (h : Holder D) (d : Fin D) : h.onCount d ≤ 1 := by
  cases h with
  | idle => exact Nat.zero_le 1
  | holding d' fd => rw [Holder.onCount_holding]; split <;> omega

theorem sum_onCount_le (threads : Fin C → Holder D) (d : Fin D) :
    ∑ c, (threads c).onCount d ≤ C := by
  simpa using Finset.sum_le_card_nsmul univ (fun c => (threads c).onCount d) 1
    fun c _ => Holder.onCount_le _ d

/-- How the count of threads holding a descriptor of `d` changes when an idle thread takes
one of `d0`, or a thread holding one of `d0` lets it go. -/
theorem sum_onCount_update (threads : Fin C → Holder D) (c : Fin C) (d d0 : Fin D)
    (fd : Nat) :
    ∑ c', (Function.update threads c (.holding d0 fd) c').onCount d =
        ∑ c', (Function.update threads c .idle c').onCount d + if d0 = d then 1 else 0 := by
  have h1 := sum_update_add (Holder.onCount d) threads c (.holding d0 fd)
  have h2 := sum_update_add (Holder.onCount d) threads c .idle
  have h0 : (Holder.idle : Holder D).onCount d = 0 := rfl
  rw [Holder.onCount_holding] at h1
  rw [h0] at h2
  omega

theorem bounded_step {s s' : State C D} {a : Action C D} (hi : Bounded s)
    (h : step s a = some s') : Bounded s' := by
  intro d
  have hb := hi d
  cases a with
  | get c d0 fd openOk =>
    simp only [step, fdGet] at h
    split at h
    · cases h
    next hc =>
    have hidle : Function.update s.threads c .idle = s.threads := by
      rw [← hc, Function.update_eq_self]
    split at h
    next fd' rest hp =>
      -- a pooled descriptor moves to the thread
      cases h
      dsimp only
      rw [sum_onCount_update, hidle]
      by_cases hd : d0 = d
      · subst hd
        rw [Function.update_same, if_pos rfl]
        rw [hp, List.length_cons] at hb
        omega
      · rw [Function.update_noteq (Ne.symm hd), if_neg hd]
        exact hb
    next hp =>
      split at h
      · split at h <;> cases h
        -- `open` only when the pool is empty
        dsimp only
        by_cases hd : d0 = d
        · subst hd
          rw [hp, List.length_nil, Nat.zero_add]
          exact sum_onCount_le _ _
        · rw [sum_onCount_update, hidle, if_neg hd]
          exact hb
      · cases h; exact hb
  | put c =>
    simp only [step, fdPut] at h
    split at h
    next d0 fd hc =>
      cases h
      have hw := sum_onCount_update s.threads c d d0 fd
      rw [← hc, Function.update_eq_self] at hw
      dsimp only
      by_cases hd : d0 = d
      · subst hd
        rw [Function.update_same, List.length_append, List.length_singleton]
        rw [if_pos rfl] at hw
        omega
      · rw [Function.update_noteq (Ne.symm hd)]
        rw [if_neg hd] at hw
        omega
    · cases h
  | close c =>
    simp only [step, closeHeld] at h
    split at h
    next d0 fd hc =>
      cases h
      have hw := sum_onCount_update s.threads c d d0 fd
      rw [← hc, Function.update_eq_self] at hw
      dsimp only
      omega
    · cases h
  | closeOne d0 =>
    simp only [step, fdCloseOne] at h
    split at h
    next fd rest hp =>
      cases h
      dsimp only
      by_cases hd : d0 = d
      · subst hd
        rw [Function.update_same]
        rw [hp, List.length_cons] at hb
        omega
      · rwa [Function.update_noteq (Ne.symm hd)]
    · cases h

theorem bounded_reachable {s : State C D} (h : Reachable s) : Bounded s :=
  Reach.inv (fun _ hs d => hs ▸ by simp [init, Holder.onCount]) (fun _ _ _ => bounded_step) h

/-- The descriptor a thread holds, `0` if it holds none. -/
def Holder.fd : Holder D → Nat
  | .idle => 0
  | .holding _ fd => fd

/-- Under the exclusivity invariant, a descriptor open on `d` and in none of `d`'s pool
slots is in the hands of a thread holding a descriptor of `d`. -/
theorem Exclusive.held_of_not_pooled {s : State C D} (hi : Exclusive s) {d : Fin D}
    {fd : Nat} (ho : s.opened fd = some d) (hp : fd ∉ s.pools d) :
    ∃ c, s.threads c = .holding d fd := by
  have hnone : ∀ d', fd ∉ s.pools d' := fun d' hd' => by
    have := hi.pooled d' fd hd'
    rw [ho, Option.some.injEq] at this
    exact hp (this ▸ hd')
  have hplaced := hi.placed fd
  simp only [places, ho, reduceCtorEq, if_false,
    List.count_eq_zero_of_not_mem (hnone _), Finset.sum_const_zero, Nat.zero_add] at hplaced
  have hsum : ∑ c, (s.threads c).heldCount fd ≠ 0 := by omega
  obtain ⟨c, -, hc⟩ := Finset.exists_ne_zero_of_sum_ne_zero hsum
  cases hth : s.threads c with
  | idle => simp [hth, Holder.heldCount] at hc
  | holding d' fd' =>
    simp only [hth, Holder.heldCount] at hc
    split at hc
    · next he =>
      subst he
      have := hi.held c d' fd' hth
      rw [ho, Option.some.injEq] at this
      exact ⟨c, this ▸ hth⟩
    · exact absurd rfl hc

/-- At every state of every interleaving, a device has at most as many descriptors open as
there are threads: every list of distinct descriptors open on `d` has at most `C` of them. -/
theorem openDescriptors_le {s : State C D} (h : Reachable s) (d : Fin D) {fds : List Nat}
    (hnd : fds.Nodup) (hopen : ∀ fd ∈ fds, s.opened fd = some d) : fds.length ≤ C := by
  have hi := exclusive_reachable h
  have hb := bounded_reachable h d
  rw [List.length_eq_length_filter_add (fun fd => decide (fd ∈ s.pools d))]
  -- the pooled ones are in the pool
  have hA : (fds.filter fun fd => decide (fd ∈ s.pools d)).length ≤ (s.pools d).length :=
    ((hnd.filter _).subperm fun fd hfd => by simpa using (List.mem_filter.1 hfd).2).length_le
  -- the others are in the hands of the threads holding a descriptor of `d`
  have hB : (fds.filter fun fd => !decide (fd ∈ s.pools d)).length ≤
      ∑ c, (s.threads c).onCount d := by
    have hsub : (fds.filter fun fd => !decide (fd ∈ s.pools d)).toFinset ⊆
        (univ.filter fun c => (s.threads c).onCount d = 1).image fun c => (s.threads c).fd := by
      intro fd hfd
      simp only [List.mem_toFinset, List.mem_filter, Bool.not_eq_true', decide_eq_false_iff_not]
        at hfd
      obtain ⟨c, hc⟩ := hi.held_of_not_pooled (hopen fd hfd.1) hfd.2
      exact Finset.mem_image.2 ⟨c, by simp [hc, Holder.onCount], by simp [hc, Holder.fd]⟩
    have hcard : (univ.filter fun c => (s.threads c).onCount d = 1).card =
        ∑ c, (s.threads c).onCount d := by
      rw [Finset.card_filter]
      refine Finset.sum_congr rfl fun c _ => ?_
      have := (s.threads c).onCount_le d
      split <;> omega
    calc (fds.filter fun fd => !decide (fd ∈ s.pools d)).length
        = (fds.filter fun fd => !decide (fd ∈ s.pools d)).toFinset.card :=
          (List.toFinset_card_of_nodup (hnd.filter _)).symm
      _ ≤ ((univ.filter fun c => (s.threads c).onCount d = 1).image
          fun c => (s.threads c).fd).card := Finset.card_le_card hsub
      _ ≤ (univ.filter fun c => (s.threads c).onCount d = 1).card := Finset.card_image_le
      _ = ∑ c, (s.threads c).onCount d := hcard
  omega

/-- Two threads that each open a descriptor of the one device: two open, the most there can
be. -/
theorem openDescriptors_le_twoOpen :
    ∃ s : State 2 1, Reachable s ∧ [3, 4].Nodup ∧ (∀ fd ∈ [3, 4], s.opened fd = some 0) ∧
      [3, 4].length ≤ 2 := by
  obtain ⟨s, hs, hp⟩ : ∃ s : State 2 1, Reachable s ∧
      decide (s.opened 3 = some 0 ∧ s.opened 4 = some 0) = true :=
    exists_reach_of_runSteps init rfl [.get 0 0 3 true, .get 1 0 4 true] _ (by decide)
  have hp := of_decide_eq_true hp
  have hopen : ∀ fd ∈ [3, 4], s.opened fd = some 0 := by simpa using hp
  exact ⟨s, hs, by decide, hopen, openDescriptors_le hs 0 (by decide) hopen⟩

end Act.FdPool
