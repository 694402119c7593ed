import Act.Basic.Clock
import Act.Basic.Run

set_option autoImplicit false

/-! # The paced loops

`run_add_readreqs` and `main`'s supervisor loop pace themselves the same way: at their
`count`-th pass they read `cf_getus()`, compute how far the `count`-th deadline (counted from
`g_run_start_us`) still is, and sleep that long when it is positive:

    int64_t sleep_us = (int64_t)(deadline - (now_us - g_run_start_us));
    if (sleep_us > 0) usleep((uint32_t)sleep_us);

The generator's deadline is `count * 1000000 / read_reqs_per_sec`, the supervisor's
`count * report_interval_us`, both `uint64_t`. The next pass of the generator, and the
supervisor's report, follow the sleep.

A loop is a state machine over a microsecond clock that only moves forward: `usleep(us)`
returns after at least `us` microseconds, and the clock may move on at any time. When
consecutive deadlines are less than `2^32` µs apart, the sleep never loses bits to the
`(uint32_t)` cast and every event is at or after its deadline (`Pacer.marks_on_time`). The
generator's deadlines are at most a second apart; a report interval of `2^32` µs or more
(`report-interval-sec` of 4295 or more) is cut modulo `2^32`, and the supervisor prints its
first report 32704 µs into a 4295 s interval (`report_printed_early`).
-/

namespace Act.Pacing

/-! ## One pass -/

/-- What a paced loop passes to `usleep` at `nowUs`, if it sleeps at all. -/
def pacedSleep (deadline startUs nowUs : U64) : Option U32 :=
  let sleepUs : U64 := deadline - (nowUs - startUs)
  if 0 < sleepUs.toInt then some (sleepUs.setWidth 32) else none

/-- The deadline of the generator's `count`-th pass. -/
def readReqDeadline (readReqsPerSec : U32) (count : U64) : U64 :=
  count * 1000000 / readReqsPerSec.setWidth 64

/-- The deadline of the supervisor's `count`-th report. -/
def reportDeadline (reportIntervalUs count : U64) : U64 := count * reportIntervalUs

/-- Ahead of a deadline by less than `2^32` µs, the loop sleeps exactly the difference. -/
theorem pacedSleep_of_lt {deadline startUs nowUs : U64} (hs : startUs.toNat ≤ nowUs.toNat)
    (h1 : nowUs.toNat - startUs.toNat < deadline.toNat)
    (h2 : deadline.toNat - (nowUs.toNat - startUs.toNat) < 2 ^ 32) :
    ∃ us : U32, pacedSleep deadline startUs nowUs = some us ∧
      us.toNat = deadline.toNat - (nowUs.toNat - startUs.toNat) := by
  have he : (nowUs - startUs).toNat = nowUs.toNat - startUs.toNat := by
    rw [BitVec.toNat_sub]; omega
  have hd : (deadline - (nowUs - startUs)).toNat =
      deadline.toNat - (nowUs.toNat - startUs.toNat) := by
    rw [BitVec.toNat_sub, he]; omega
  have hpos : 0 < (deadline - (nowUs - startUs)).toInt := by
    rw [toInt_eq_toNat_of_lt _ (by rw [hd]; omega), hd]; omega
  refine ⟨_, if_pos hpos, ?_⟩
  rw [BitVec.toNat_setWidth, hd]
  exact Nat.mod_eq_of_lt h2

/-! ## A paced loop -/

/-- A paced loop: the clock (`cf_getus`), its `count`, and the clock reading at each event
that follows a sleep (the generator's next pass, the supervisor's report). -/
structure Pacer where
  clock : U64
  count : U64
  marks : List U64
deriving DecidableEq, Repr

/-- A step of a paced loop or of time. -/
inductive Action where
  /-- The clock moves on to `t`. -/
  | tick (t : U64)
  /-- One pass: `count++`, the sleep, and the event, which comes `late` µs after the
  sleep's end. -/
  | iterate (late : U64)
deriving DecidableEq, Repr

/-- The loop started at `c0`. -/
def Pacer.init (c0 : U64) : Pacer := ⟨c0, 0, []⟩

/-- A step of the loop whose `count`-th deadline is `deadline count`. -/
def Pacer.step (deadline : U64 → U64) (startUs : U64) (p : Pacer) : Action → Option Pacer
  | .tick t => if p.clock ≤ t then some { p with clock := t } else none
  | .iterate late =>
    let slept : Nat :=
      ((pacedSleep (deadline (p.count + 1)) startUs p.clock).map BitVec.toNat).getD 0
    if p.clock.toNat + slept + late.toNat < 2 ^ 64 then
      let wake : U64 := p.clock + BitVec.ofNat 64 slept + late
      some { clock := wake, count := p.count + 1, marks := p.marks ++ [wake] }
    else none

/-- The states of a loop started at or after `g_run_start_us`. -/
def Pacer.Reachable (deadline : U64 → U64) (startUs : U64) : Pacer → Prop :=
  Reach (Pacer.step deadline startUs) fun p => ∃ c0, startUs ≤ c0 ∧ p = Pacer.init c0

/-! ## Events are never early -/

section Schedule

variable {deadline : U64 → U64} {startUs : U64} {K : Nat}

/-- The deadlines up to the `K`-th start at `0`, never decrease, and are less than `2^32` µs
apart. -/
structure Spaced (deadline : U64 → U64) (K : Nat) : Prop where
  lt : K < 2 ^ 64
  zero : deadline 0 = 0
  mono : ∀ k : U64, k.toNat < K → (deadline k).toNat ≤ (deadline (k + 1)).toNat
  gap : ∀ k : U64, k.toNat < K → (deadline (k + 1)).toNat < (deadline k).toNat + 2 ^ 32

/-- The schedule invariant: the loop's clock is past `g_run_start_us` and, up to the `K`-th
pass, past its current deadline, and every event so far came at or after its deadline. -/
structure OnTime (deadline : U64 → U64) (startUs : U64) (K : Nat) (p : Pacer) : Prop where
  start_le : startUs.toNat ≤ p.clock.toNat
  count_eq : p.count.toNat = p.marks.length % 2 ^ 64
  on_time : p.marks.length ≤ K → startUs.toNat + (deadline p.count).toNat ≤ p.clock.toNat
  marks_ok : ∀ i (h : i < p.marks.length), i + 1 ≤ K →
    startUs.toNat + (deadline (BitVec.ofNat 64 (i + 1))).toNat ≤ p.marks[i].toNat

/-- The end of a pass is at or after the pass's deadline. -/
theorem wake_on_time (hsp : Spaced deadline K) {p : Pacer} (hi : OnTime deadline startUs K p)
    (hn : p.marks.length < K) :
    startUs.toNat + (deadline (p.count + 1)).toNat ≤ p.clock.toNat +
      ((pacedSleep (deadline (p.count + 1)) startUs p.clock).map BitVec.toNat).getD 0 := by
  have hk : p.count.toNat < K := by rw [hi.count_eq]; omega
  have hnow := hi.on_time hn.le
  have hmono := hsp.mono p.count hk
  have hgap := hsp.gap p.count hk
  by_cases hlt : p.clock.toNat - startUs.toNat < (deadline (p.count + 1)).toNat
  · obtain ⟨us, hus, hval⟩ := pacedSleep_of_lt hi.start_le hlt (by omega)
    rw [hus, Option.map_some', Option.getD_some, hval]
    omega
  · omega

theorem onTime_init (hsp : Spaced deadline K) {c0 : U64} (h : startUs ≤ c0) :
    OnTime deadline startUs K (Pacer.init c0) where
  start_le := h
  count_eq := rfl
  on_time _ := by
    show startUs.toNat + (deadline 0).toNat ≤ c0.toNat
    rw [hsp.zero]
    exact h
  marks_ok i h := absurd h (Nat.not_lt_zero i)

theorem onTime_step (hsp : Spaced deadline K) {p p' : Pacer} {a : Action}
    (hi : OnTime deadline startUs K p) (h : Pacer.step deadline startUs p a = some p') :
    OnTime deadline startUs K p' := by
  cases a with
  | tick t =>
    simp only [Pacer.step] at h
    split at h <;> cases h
    rename_i hle
    rw [BitVec.le_def] at hle
    exact ⟨by have := hi.start_le; simp only; omega, hi.count_eq,
      fun hn => by have := hi.on_time hn; simp only; omega, hi.marks_ok⟩
  | iterate late =>
    simp only [Pacer.step] at h
    split at h <;> cases h
    next hw =>
    set slept := ((pacedSleep (deadline (p.count + 1)) startUs p.clock).map BitVec.toNat).getD 0
    have hwake :
        (p.clock + BitVec.ofNat 64 slept + late).toNat = p.clock.toNat + slept + late.toNat := by
      simp only [BitVec.toNat_add, BitVec.toNat_ofNat]; omega
    have hcount : (p.count + 1).toNat = (p.marks.length + 1) % 2 ^ 64 := by
      rw [BitVec.toNat_add, hi.count_eq]; simp
    have hstart := hi.start_le
    refine ⟨by simp only; omega, by simpa using hcount, fun hn => ?_, fun i hi' hK => ?_⟩
    · simp only [List.length_append, List.length_singleton] at hn
      have := wake_on_time hsp hi (by omega)
      simp only; omega
    · simp only [List.length_append, List.length_singleton] at hi'
      dsimp only
      rcases Nat.lt_succ_iff_lt_or_eq.1 hi' with hi' | rfl
      · rw [List.getElem_append_left hi']
        exact hi.marks_ok i hi' hK
      · rw [List.getElem_append_right (Nat.le_refl _)]
        have hc : BitVec.ofNat 64 (p.marks.length + 1) = p.count + 1 :=
          BitVec.eq_of_toNat_eq (by rw [hcount, BitVec.toNat_ofNat])
        have := wake_on_time hsp hi (by omega)
        simp only [Nat.sub_self, List.getElem_singleton, hc, hwake]
        omega

/-- Every event of a paced loop whose first `K` deadlines are spaced less than `2^32` µs
apart comes at or after its deadline, up to the `K`-th. -/
theorem Pacer.marks_on_time (hsp : Spaced deadline K) {p : Pacer}
    (h : Pacer.Reachable deadline startUs p) :
    ∀ i (h : i < p.marks.length), i + 1 ≤ K →
      startUs.toNat + (deadline (BitVec.ofNat 64 (i + 1))).toNat ≤ p.marks[i].toNat :=
  (Reach.inv (fun _ ⟨_, hc0, hp⟩ => hp ▸ onTime_init hsp hc0)
    (fun _ _ _ => onTime_step hsp) h).marks_ok

end Schedule

/-! ## The generator -/

/-- The generator's deadline in whole numbers, while `count * 1000000` fits in 64 bits. -/
theorem readReqDeadline_toNat (readReqsPerSec : U32) (k : U64)
    (hk : k.toNat * 1000000 < 2 ^ 64) :
    (readReqDeadline readReqsPerSec k).toNat = k.toNat * 1000000 / readReqsPerSec.toNat := by
  have hr := readReqsPerSec.isLt
  simp only [readReqDeadline, BitVec.toNat_udiv, BitVec.toNat_mul, BitVec.toNat_setWidth,
    BitVec.ofNat_eq_ofNat, BitVec.toNat_ofNat, Nat.reducePow, Nat.reduceMod] at hk hr ⊢
  rw [Nat.mod_eq_of_lt hk, Nat.mod_eq_of_lt (by omega)]

/-- The generator's deadlines, for every positive rate, are at most a second and a
microsecond apart until `count * 1000000` wraps. -/
theorem readReqDeadline_spaced {readReqsPerSec : U32} (hr : 0 < readReqsPerSec.toNat) :
    Spaced (readReqDeadline readReqsPerSec) 18446744073709 where
  lt := by decide
  zero := by simp [readReqDeadline]
  mono k hk := by
    have h1 : (k + 1).toNat = k.toNat + 1 := by rw [BitVec.toNat_add]; simp; omega
    rw [readReqDeadline_toNat _ _ (by omega), readReqDeadline_toNat _ _ (by omega), h1]
    exact Nat.div_le_div_right (by omega)
  gap k hk := by
    have h1 : (k + 1).toNat = k.toNat + 1 := by rw [BitVec.toNat_add]; simp; omega
    rw [readReqDeadline_toNat _ _ (by omega), readReqDeadline_toNat _ _ (by omega), h1,
      Nat.add_mul, Nat.one_mul, Nat.add_div hr]
    have := Nat.div_le_self 1000000 readReqsPerSec.toNat
    split <;> omega

/-- For every positive `read_reqs_per_sec`, every pass of the generator begins no earlier
than its deadline `g_run_start_us + ⌊k · 10^6 / read_reqs_per_sec⌋`, for every `k` until
`count * 1000000` wraps. -/
theorem readReqs_on_schedule {readReqsPerSec : U32} (hr : 0 < readReqsPerSec.toNat)
    {startUs : U64} {p : Pacer} (h : Pacer.Reachable (readReqDeadline readReqsPerSec) startUs p) :
    ∀ i (hi : i < p.marks.length), (i + 1) * 1000000 < 2 ^ 64 →
      startUs.toNat + (i + 1) * 1000000 / readReqsPerSec.toNat ≤ p.marks[i].toNat := by
  intro i hi hK
  have := Pacer.marks_on_time (readReqDeadline_spaced hr) h i hi (by omega)
  rwa [readReqDeadline_toNat _ _ (by rw [BitVec.toNat_ofNat]; omega), BitVec.toNat_ofNat,
    Nat.mod_eq_of_lt (by omega)] at this

/-- A run at one request per second, started at `g_run_start_us = 0`, whose first sleep
ends 5 µs late. -/
theorem readReqs_on_schedule_oneRps :
    ∃ p : Pacer, Pacer.Reachable (readReqDeadline 1) 0 p ∧ p.marks = [1000005] ∧
      0 < (1 : U32).toNat ∧
      ∀ i (hi : i < p.marks.length), (i + 1) * 1000000 < 2 ^ 64 →
        (0 : U64).toNat + (i + 1) * 1000000 / (1 : U32).toNat ≤ p.marks[i].toNat := by
  obtain ⟨p, hp, hm⟩ : ∃ p, Pacer.Reachable (readReqDeadline 1) 0 p ∧
      decide (p.marks = [1000005]) = true :=
    exists_reach_of_runSteps _ ⟨0, BitVec.le_refl _, rfl⟩ [.iterate 5] _ (by decide)
  exact ⟨p, hp, of_decide_eq_true hm, by decide, readReqs_on_schedule (by decide) hp⟩

/-! ## The supervisor -/

/-- A report interval below `2^32` µs spaces the reports' deadlines less than `2^32` apart,
until `count * report_interval_us` wraps. -/
theorem reportDeadline_spaced {reportIntervalUs : U64} (hpos : 0 < reportIntervalUs.toNat)
    (hlt : reportIntervalUs.toNat < 2 ^ 32) :
    Spaced (reportDeadline reportIntervalUs) ((2 ^ 64 - 1) / reportIntervalUs.toNat) := by
  have hK := Nat.div_mul_le_self (2 ^ 64 - 1) reportIntervalUs.toNat
  have hval : ∀ k : U64, k.toNat < (2 ^ 64 - 1) / reportIntervalUs.toNat →
      (reportDeadline reportIntervalUs k).toNat = k.toNat * reportIntervalUs.toNat ∧
        (reportDeadline reportIntervalUs (k + 1)).toNat =
          k.toNat * reportIntervalUs.toNat + reportIntervalUs.toNat := by
    intro k hk
    have hle : (k.toNat + 1) * reportIntervalUs.toNat < 2 ^ 64 :=
      Nat.lt_of_le_of_lt (Nat.mul_le_mul_right _ hk) (Nat.lt_of_le_of_lt hK (by decide))
    have h1 : (k + 1).toNat = k.toNat + 1 := by
      have := Nat.div_le_self (2 ^ 64 - 1) reportIntervalUs.toNat
      rw [BitVec.toNat_add]; simp; omega
    have hlt1 : k.toNat * reportIntervalUs.toNat < 2 ^ 64 :=
      Nat.lt_of_le_of_lt (Nat.mul_le_mul_right _ (Nat.le_succ _)) hle
    constructor
    · simp only [reportDeadline, BitVec.toNat_mul, Nat.mod_eq_of_lt hlt1]
    · simp only [reportDeadline, BitVec.toNat_mul, h1, Nat.mod_eq_of_lt hle]
      rw [Nat.add_mul, Nat.one_mul]
  exact {
    lt := Nat.lt_of_le_of_lt (Nat.div_le_self _ _) (by decide)
    zero := by simp [reportDeadline]
    mono := fun k hk => by rw [(hval k hk).1, (hval k hk).2]; omega
    gap := fun k hk => by rw [(hval k hk).1, (hval k hk).2]; omega }

/-- For every report interval below `2^32` µs, the supervisor prints its `N`-th report no
earlier than `g_run_start_us + N · report_interval_us`, until the product wraps. -/
theorem reports_on_schedule {reportIntervalUs : U64} (hpos : 0 < reportIntervalUs.toNat)
    (hlt : reportIntervalUs.toNat < 2 ^ 32) {startUs : U64} {p : Pacer}
    (h : Pacer.Reachable (reportDeadline reportIntervalUs) startUs p) :
    ∀ i (hi : i < p.marks.length), (i + 1) * reportIntervalUs.toNat < 2 ^ 64 →
      startUs.toNat + (i + 1) * reportIntervalUs.toNat ≤ p.marks[i].toNat := by
  intro i hi hK
  have hi1 : i + 1 ≤ (2 ^ 64 - 1) / reportIntervalUs.toNat :=
    (Nat.le_div_iff_mul_le hpos).2 (by omega)
  have := Pacer.marks_on_time (reportDeadline_spaced hpos hlt) h i hi hi1
  have hi2 : (i + 1) % 2 ^ 64 = i + 1 :=
    Nat.mod_eq_of_lt (Nat.lt_of_le_of_lt (Nat.le_mul_of_pos_right _ hpos) hK)
  simp only [reportDeadline, BitVec.toNat_mul, BitVec.toNat_ofNat, hi2,
    Nat.mod_eq_of_lt hK] at this
  exact this

/-- The default one-second interval, with the first report's sleep ending on time. -/
theorem reports_on_schedule_oneSec :
    ∃ p : Pacer, Pacer.Reachable (reportDeadline 1000000) 0 p ∧ p.marks = [1000000] ∧
      0 < (1000000 : U64).toNat ∧ (1000000 : U64).toNat < 2 ^ 32 ∧
      ∀ i (hi : i < p.marks.length), (i + 1) * (1000000 : U64).toNat < 2 ^ 64 →
        (0 : U64).toNat + (i + 1) * (1000000 : U64).toNat ≤ p.marks[i].toNat := by
  obtain ⟨p, hp, hm⟩ : ∃ p, Pacer.Reachable (reportDeadline 1000000) 0 p ∧
      decide (p.marks = [1000000]) = true :=
    exists_reach_of_runSteps _ ⟨0, BitVec.le_refl _, rfl⟩ [.iterate 0] _ (by decide)
  exact ⟨p, hp, of_decide_eq_true hm, by decide, by decide,
    reports_on_schedule (by decide) (by decide) hp⟩

/-- `report-interval-sec: 4295` makes `report_interval_us` 4295000000, above `2^32`: the
first pass, at `g_run_start_us = 0`, passes 32704 to `usleep` instead of 4295000000,
and with a clock that moves only as `usleep` asks the first report is printed at
32704 µs, before its deadline. -/
theorem report_printed_early :
    pacedSleep (reportDeadline 4295000000 1) 0 0 = some 32704 ∧
      ∃ p : Pacer, Pacer.Reachable (reportDeadline 4295000000) 0 p ∧ p.marks = [32704] ∧
        (32704 : Nat) < (reportDeadline 4295000000 1).toNat := by
  obtain ⟨p, hp, hm⟩ : ∃ p, Pacer.Reachable (reportDeadline 4295000000) 0 p ∧
      decide (p.marks = [32704]) = true :=
    exists_reach_of_runSteps _ ⟨0, BitVec.le_refl _, rfl⟩ [.iterate 0] _ (by decide)
  have hm := of_decide_eq_true hm
  exact ⟨by decide, p, hp, hm, by decide⟩

/-! ## The supervisor's loop ends

`main` only begins a pass while `cf_getus()` is before `run_stop_us = g_run_start_us +
run_us` (and `g_running` holds, which only makes runs shorter). With a report interval
below `2^32` µs every report is on schedule, so the pass that prints report `n + 1` began at
or after the `n`-th deadline and before `run_stop_us`: there are at most
`⌈run_us / report_interval_us⌉` reports. -/

/-- A step of `main`'s report loop, which runs until `run_stop_us`. -/
def superStep (reportIntervalUs startUs runStopUs : U64) (p : Pacer) : Action → Option Pacer
  | .tick t => Pacer.step (reportDeadline reportIntervalUs) startUs p (.tick t)
  | .iterate late =>
    if p.clock < runStopUs then
      Pacer.step (reportDeadline reportIntervalUs) startUs p (.iterate late)
    else none

/-- The states of `main`'s report loop. -/
def superReachable (reportIntervalUs startUs runStopUs : U64) : Pacer → Prop :=
  Reach (superStep reportIntervalUs startUs runStopUs)
    fun p => ∃ c0, startUs ≤ c0 ∧ p = Pacer.init c0

section Reports

variable {R startUs runUs : U64}

/-- The report loop's invariant: on schedule, and no more reports than `⌈run_us / R⌉`. -/
structure Reported (R startUs runUs : U64) (p : Pacer) : Prop where
  onTime : OnTime (reportDeadline R) startUs ((2 ^ 64 - 1) / R.toNat) p
  le : p.marks.length ≤ (runUs.toNat + R.toNat - 1) / R.toNat

theorem reported_step (hpos : 0 < R.toNat) (hlt : R.toNat < 2 ^ 32)
    (hno : startUs.toNat + runUs.toNat + R.toNat < 2 ^ 64) {p p' : Pacer} {a : Action}
    (hi : Reported R startUs runUs p) (h : superStep R startUs (startUs + runUs) p a = some p') :
    Reported R startUs runUs p' := by
  have hsp := reportDeadline_spaced hpos hlt
  cases a with
  | tick t =>
    refine ⟨onTime_step hsp hi.onTime (a := .tick t) h, ?_⟩
    simp only [superStep, Pacer.step] at h
    split at h <;> cases h
    exact hi.le
  | iterate late =>
    simp only [superStep] at h
    split at h
    next hc =>
      refine ⟨onTime_step hsp hi.onTime h, ?_⟩
      -- the pass began after the deadline of the reports so far and before `run_stop_us`
      have hK : p.marks.length ≤ (2 ^ 64 - 1) / R.toNat :=
        le_trans hi.le (Nat.div_le_div_right (by omega))
      have hnow := hi.onTime.on_time hK
      have hcount : p.count.toNat = p.marks.length := by
        have := Nat.div_le_self (2 ^ 64 - 1) R.toNat
        rw [hi.onTime.count_eq, Nat.mod_eq_of_lt (by omega)]
      have hprod : p.marks.length * R.toNat < 2 ^ 64 := by
        have := (Nat.le_div_iff_mul_le hpos).1 hK
        omega
      have hstop : (startUs + runUs).toNat = startUs.toNat + runUs.toNat := by
        rw [BitVec.toNat_add]; omega
      rw [BitVec.lt_def, hstop] at hc
      simp only [reportDeadline, BitVec.toNat_mul, hcount, Nat.mod_eq_of_lt hprod] at hnow
      simp only [Pacer.step] at h
      split at h <;> cases h
      simp only [List.length_append, List.length_singleton]
      apply (Nat.le_div_iff_mul_le hpos).2
      rw [Nat.add_mul, Nat.one_mul]
      omega
    next => cases h

/-- For every report interval below `2^32` µs, `main` prints at most
`⌈run_us / report_interval_us⌉` reports, whatever the clock does, when
`run_stop_us` does not wrap. -/
theorem supervisor_reports_le (hpos : 0 < R.toNat) (hlt : R.toNat < 2 ^ 32)
    (hno : startUs.toNat + runUs.toNat + R.toNat < 2 ^ 64) {p : Pacer}
    (h : superReachable R startUs (startUs + runUs) p) :
    p.marks.length ≤ (runUs.toNat + R.toNat - 1) / R.toNat :=
  (Reach.inv (fun _ ⟨_, hc0, hp⟩ => hp ▸ ⟨onTime_init (reportDeadline_spaced hpos hlt) hc0,
      Nat.zero_le _⟩)
    (fun _ _ _ => reported_step hpos hlt hno) h).le

end Reports

/-- A two-second run with the default one-second interval prints two reports, and the
loop ends. -/
theorem supervisor_reports_le_twoSec :
    ∃ p : Pacer, superReachable 1000000 0 (0 + 2000000) p ∧ p.marks = [1000000, 2000000] ∧
      0 < (1000000 : U64).toNat ∧ (1000000 : U64).toNat < 2 ^ 32 ∧
      (0 : U64).toNat + (2000000 : U64).toNat + (1000000 : U64).toNat < 2 ^ 64 ∧
      p.marks.length ≤ ((2000000 : U64).toNat + (1000000 : U64).toNat - 1) /
        (1000000 : U64).toNat := by
  obtain ⟨p, hp, hm⟩ : ∃ p, superReachable 1000000 0 (0 + 2000000) p ∧
      decide (p.marks = [1000000, 2000000]) = true :=
    exists_reach_of_runSteps _ ⟨0, BitVec.le_refl _, rfl⟩ [.iterate 0, .iterate 0] _ (by decide)
  exact ⟨p, hp, of_decide_eq_true hm, by decide, by decide, by decide,
    supervisor_reports_le (by decide) (by decide) (by decide) hp⟩

end Act.Pacing
