import Mathlib.Data.BitVec

set_option autoImplicit false

/-! # C words and the monotonic clock

The tool is written in C against `<stdint.h>`. A `uint32_t` is `U32` and a `uint64_t` is
`U64`, both `BitVec`s, so that every `+`, `-` and `*` of the source wraps exactly where the
C wraps; a value is read back with `toNat`. An implicit conversion of the source is written
out: `x.setWidth 64` widens a `uint32_t`, `x.setWidth 32` truncates a `uint64_t`.

`clock.h` reads `CLOCK_MONOTONIC` into a `struct timespec` and folds it into one `uint64_t`
count of milliseconds, microseconds or nanoseconds. The fold is exact, and monotone in the
`timespec`, as long as the count fits in 64 bits (`cfGetns_toNat`), that is for the first
584 years of uptime. The thread models of `Pipeline/` and `Timing/` therefore take the
clock to be the reading itself, a `U64` that never decreases.
-/

namespace Act

/-- C's `uint32_t`. -/
abbrev U32 := BitVec 32

/-- C's `uint64_t`. -/
abbrev U64 := BitVec 64

/-- A word whose value is below `2^63` is non-negative when read as a signed integer
(the `(int64_t)` casts of the source). -/
theorem toInt_eq_toNat_of_lt {w : Nat} (x : BitVec w) (h : 2 * x.toNat < 2 ^ w) :
    x.toInt = x.toNat := by
  rw [BitVec.toInt_eq_toNat_cond, if_pos h]

/-! ## `clock.h` -/

/-- A `struct timespec` as `clock_gettime` fills it: `tv_nsec` is below one second. -/
structure Timespec where
  tvSec : Nat
  tvNsec : Nat
  tvNsec_lt : tvNsec < 1000000000

/-- The order of `CLOCK_MONOTONIC`: later readings are never smaller. -/
def Timespec.le (a b : Timespec) : Prop :=
  a.tvSec < b.tvSec ∨ (a.tvSec = b.tvSec ∧ a.tvNsec ≤ b.tvNsec)

/-- The instant as a plain number of nanoseconds. -/
def Timespec.ns (ts : Timespec) : Nat := ts.tvNsec + ts.tvSec * 1000000000

/-- `cf_getms`. -/
def cfGetms (ts : Timespec) : U64 :=
  BitVec.ofNat 64 ts.tvNsec / 1000000 + BitVec.ofNat 64 ts.tvSec * 1000

/-- `cf_getus`. -/
def cfGetus (ts : Timespec) : U64 :=
  BitVec.ofNat 64 ts.tvNsec / 1000 + BitVec.ofNat 64 ts.tvSec * 1000000

/-- `cf_getns`. -/
def cfGetns (ts : Timespec) : U64 :=
  BitVec.ofNat 64 ts.tvNsec + BitVec.ofNat 64 ts.tvSec * 1000000000

theorem Timespec.ns_le_ns {a b : Timespec} (h : a.le b) : a.ns ≤ b.ns := by
  have := a.tvNsec_lt
  unfold Timespec.le at h
  unfold Timespec.ns
  rcases h with h | ⟨h, h'⟩
  · have : (a.tvSec + 1) * 1000000000 ≤ b.tvSec * 1000000000 := Nat.mul_le_mul_right _ h
    omega
  · rw [h]; omega

/-- While the count fits in 64 bits, `cf_getns` is the exact number of nanoseconds. -/
theorem cfGetns_toNat (ts : Timespec) (h : ts.ns < 2 ^ 64) : (cfGetns ts).toNat = ts.ns := by
  have := ts.tvNsec_lt
  unfold Timespec.ns at h ⊢
  simp only [cfGetns, BitVec.toNat_add, BitVec.toNat_mul, BitVec.ofNat_eq_ofNat,
    BitVec.toNat_ofNat]
  omega

/-- While the count fits in 64 bits, `cf_getus` is `cf_getns` divided by `1000`:
the two clocks of the source are one clock. -/
theorem cfGetus_toNat (ts : Timespec) (h : ts.ns < 2 ^ 64) :
    (cfGetus ts).toNat = (cfGetns ts).toNat / 1000 := by
  have := ts.tvNsec_lt
  rw [cfGetns_toNat ts h]
  unfold Timespec.ns at h ⊢
  simp only [cfGetus, BitVec.toNat_add, BitVec.toNat_mul, BitVec.ofNat_eq_ofNat,
    BitVec.toNat_ofNat, BitVec.toNat_udiv, Nat.reducePow, Nat.reduceMod]
  omega

/-- `CLOCK_MONOTONIC` read through `cf_getns` never goes back while the count fits. -/
theorem cfGetns_mono {a b : Timespec} (hab : a.le b) (hb : b.ns < 2 ^ 64) :
    cfGetns a ≤ cfGetns b := by
  have hle := Timespec.ns_le_ns hab
  rw [BitVec.le_def, cfGetns_toNat a (by omega), cfGetns_toNat b hb]
  exact hle

end Act
