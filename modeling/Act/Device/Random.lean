import Act.Device.Geometry

set_option autoImplicit false

/-! # The random draws

`rand_48` is documented as returning "a random 48-bit `uint64_t`": it shifts one `rand()`
result left by 16 and puts the low 16 bits of another under it. `rand()` returns at most
`RAND_MAX = 2^31 - 1`, a 31-bit value, so the high part has 31 bits and `rand_48` takes
exactly the values below `2^47` (`rand48_range`): bit 47 is never set.

`random_read_offset` and `random_large_block_offset` reduce `rand_48()` modulo the number of
offsets of the device and scale the remainder by the size of a transfer. They reach exactly
the indices below that number and below `2^47` (`randomOffsets_exact`), so on a device with
more than `2^47` read offsets some offsets are never read (`rand48_misses_bit47`).
-/

namespace Act

/-! ## `rand_48` -/

theorem rand48_toNat (hi lo : RandInt) :
    (rand48 hi lo).toNat = 2 ^ 16 * hi + lo % 2 ^ 16 := by
  have hhi : (hi : Nat) < 2 ^ 31 := hi.isLt
  have hlo : (lo : Nat) < 2 ^ 31 := lo.isLt
  rw [Nat.mul_add_lt_is_or (Nat.mod_lt _ (by decide))]
  simp only [rand48, BitVec.toNat_or, BitVec.toNat_shiftLeft, BitVec.toNat_and,
    BitVec.toNat_ofNat, Nat.shiftLeft_eq]
  rw [Nat.mod_eq_of_lt (by omega : (hi : Nat) < 2 ^ 64),
    Nat.mod_eq_of_lt (by omega : (lo : Nat) < 2 ^ 64), Nat.mod_eq_of_lt (by omega), Nat.mul_comm]
  -- the mask `0xffff` keeps the low 16 bits
  show _ ||| (lo : Nat) &&& 2 ^ 16 - 1 = _
  rw [Nat.and_pow_two_sub_one_eq_mod]

theorem rand48_lt (hi lo : RandInt) : (rand48 hi lo).toNat < 2 ^ 47 := by
  have hhi : (hi : Nat) < 2 ^ 31 := hi.isLt
  have := Nat.mod_lt (lo : Nat) (Nat.two_pow_pos 16)
  rw [rand48_toNat]
  omega

/-- Every value below `2^47` is drawn, from the high part `v / 2^16` and the low part
`v % 2^16`. -/
theorem exists_rand48 {v : Nat} (hv : v < 2 ^ 47) :
    ∃ hi lo : RandInt, (rand48 hi lo).toNat = v := by
  refine ⟨⟨v / 2 ^ 16, by show _ < 2 ^ 31; omega⟩,
    ⟨v % 2 ^ 16, by show _ < 2 ^ 31; omega⟩, ?_⟩
  rw [rand48_toNat]
  show 2 ^ 16 * (v / 2 ^ 16) + v % 2 ^ 16 % 2 ^ 16 = v
  rw [Nat.mod_mod, Nat.div_add_mod]

/-- `rand_48` takes exactly the values below `2^47`. -/
theorem rand48_range (r : U64) : (∃ hi lo : RandInt, rand48 hi lo = r) ↔ r.toNat < 2 ^ 47 := by
  constructor
  · rintro ⟨hi, lo, rfl⟩
    exact rand48_lt hi lo
  · intro hr
    obtain ⟨hi, lo, h⟩ := exists_rand48 hr
    exact ⟨hi, lo, BitVec.eq_of_toNat_eq h⟩

/-! ## The offsets -/

/-- The offsets of the shape of `random_read_offset` and `random_large_block_offset`: the
index `rand_48() % n`, scaled by `size`, undefined for `n = 0`. Every index below `n` and
below `2^47` is reached, and no other. -/
theorem modOffset_reaches (n size off : U64) :
    (∃ hi lo : RandInt,
        (if n = 0 then none else some (rand48 hi lo % n * size)) = some off) ↔
      ∃ k : U64, k.toNat < min n.toNat (2 ^ 47) ∧ off = k * size := by
  constructor
  · rintro ⟨hi, lo, h⟩
    split at h
    · cases h
    · next hn =>
      cases h
      have hpos : 0 < n.toNat := Nat.pos_of_ne_zero fun h0 => hn (BitVec.eq_of_toNat_eq h0)
      refine ⟨_, ?_, rfl⟩
      have := rand48_lt hi lo
      have := Nat.mod_le (rand48 hi lo).toNat n.toNat
      have := Nat.mod_lt (rand48 hi lo).toNat hpos
      rw [BitVec.toNat_umod]
      omega
  · rintro ⟨k, hk, rfl⟩
    have hn : n ≠ 0 := by
      rintro rfl
      simp at hk
    obtain ⟨hi, lo, h⟩ := exists_rand48 (lt_of_lt_of_le hk (min_le_right _ _))
    refine ⟨hi, lo, ?_⟩
    rw [if_neg hn]
    congr 2
    apply BitVec.eq_of_toNat_eq
    rw [BitVec.toNat_umod, h]
    exact Nat.mod_eq_of_lt (lt_of_lt_of_le hk (min_le_left _ _))

/-- The transaction reads are at the multiples `k * min_op_bytes` with `k` below
`num_read_offsets` and below `2^47`, and at all of them. -/
theorem randomReadOffset_reaches (dev : Device) (off : U64) :
    (∃ hi lo : RandInt, randomReadOffset dev (rand48 hi lo) = some off) ↔
      ∃ k : U64, k.toNat < min dev.numReadOffsets.toNat (2 ^ 47) ∧
        off = k * dev.minOpBytes.setWidth 64 :=
  modOffset_reaches _ _ off

/-- The large-block transfers are at the multiples `k * large_block_ops_bytes` with `k`
below `num_large_blocks` and below `2^47`, and at all of them. -/
theorem randomLargeBlockOffset_reaches (largeBlockOpsBytes : U32) (dev : Device) (off : U64) :
    (∃ hi lo : RandInt,
        randomLargeBlockOffset largeBlockOpsBytes dev (rand48 hi lo) = some off) ↔
      ∃ k : U64, k.toNat < min dev.numLargeBlocks.toNat (2 ^ 47) ∧
        off = k * largeBlockOpsBytes.setWidth 64 :=
  modOffset_reaches _ _ off

/-- Both offset functions reach exactly the indices below their count and below `2^47`. -/
theorem randomOffsets_exact (largeBlockOpsBytes : U32) (dev : Device) (off : U64) :
    ((∃ hi lo : RandInt, randomReadOffset dev (rand48 hi lo) = some off) ↔
      ∃ k : U64, k.toNat < min dev.numReadOffsets.toNat (2 ^ 47) ∧
        off = k * dev.minOpBytes.setWidth 64) ∧
    ((∃ hi lo : RandInt,
        randomLargeBlockOffset largeBlockOpsBytes dev (rand48 hi lo) = some off) ↔
      ∃ k : U64, k.toNat < min dev.numLargeBlocks.toNat (2 ^ 47) ∧
        off = k * largeBlockOpsBytes.setWidth 64) :=
  ⟨randomReadOffset_reaches dev off, randomLargeBlockOffset_reaches largeBlockOpsBytes dev off⟩

/-! ## A device with more than `2^47` read offsets -/

/-- `rand_48` never returns `2^47`, a 48-bit value. A device of `2^57` bytes with 512-byte
blocks, 128 KiB large blocks and 1536-byte records has `2^48 - 2` read offsets, and the one
of index `2^47`, at byte `2^56`, is never read. -/
theorem rand48_misses_bit47 :
    (∀ hi lo : RandInt, rand48 hi lo ≠ 140737488355328) ∧
      discoverNumBlocks 131072 1536 144115188075855872 512 =
        some ⟨1099511627776, 281474976710654, 512, 1536⟩ ∧
      ∀ hi lo : RandInt, randomReadOffset ⟨1099511627776, 281474976710654, 512, 1536⟩
        (rand48 hi lo) ≠ some 72057594037927936 := by
  refine ⟨fun hi lo h => ?_, rfl, fun hi lo h => ?_⟩
  · have := rand48_lt hi lo
    rw [h] at this
    exact absurd this (by decide)
  · obtain ⟨k, hk, hoff⟩ := (randomReadOffset_reaches _ _).1 ⟨hi, lo, h⟩
    have := congrArg BitVec.toNat hoff
    simp only [BitVec.toNat_mul, BitVec.toNat_setWidth, BitVec.ofNat_eq_ofNat, BitVec.toNat_ofNat,
      Nat.reducePow, Nat.reduceMod] at this hk
    omega

end Act
