import Act.Basic.Clock

set_option autoImplicit false

/-! # Device geometry and I/O offsets

At setup `discover_num_blocks` asks the kernel for the byte size `D` of a device
(`BLKGETSIZE64`) and probes its minimum direct-I/O size `M` (`discover_min_op_bytes`: the
first of `512, 1024, 2048, 4096` that one read at offset `0` accepts). From `D`, `M`, the
large-block size `L` and the record size `R` it derives the number of large blocks and of
transaction-read offsets, and the size of a transaction read. Every transfer of the run
is placed from these: a transaction read at `random_read_offset`, a large-block read or
write at `random_large_block_offset`.

The arithmetic is the C arithmetic, word for word: `record_bytes + min_op_bytes - 1`
is a 32-bit sum, the offset counts are 64-bit. A remainder by zero, undefined in C, is
`none`.

Main results:
* `discoverNumBlocks_accepts_too_small`: a device that cannot hold one transaction read is
  accepted with no read offset at all.
* `readReqOp_within_device`: when the device does hold one, and `R + M - 1` does not wrap,
  every transaction read is `M`-aligned and lies inside the device.
* `largeBlockOp_within_device`: every large-block transfer is an aligned block inside
  the device.
-/

namespace Act

/-- `LO_IO_MIN_SIZE`. -/
def LO_IO_MIN_SIZE : Nat := 512

/-- `HI_IO_MIN_SIZE`. -/
def HI_IO_MIN_SIZE : Nat := 4096

/-! ## `discover_min_op_bytes` -/

/-- The probe loop of `discover_min_op_bytes`: try one read of `read_sz` bytes at offset
`0` (`readOk read_sz` is whether it returned `read_sz`), double `read_sz` and stop past
`HI_IO_MIN_SIZE`. From `LO_IO_MIN_SIZE` the loop runs at most four times, so four rounds
of fuel are the whole loop. -/
def probeMinOp (readOk : Nat → Bool) : Nat → Nat → Nat
  | 0, _ => 0
  | n + 1, readSz =>
    if readSz ≤ HI_IO_MIN_SIZE then
      if readOk readSz then readSz else probeMinOp readOk n (readSz <<< 1)
    else 0

/-- `discover_min_op_bytes`: `0` when the seek to offset `0` or the buffer allocation
fails, or when no size is read. -/
def discoverMinOpBytes (seekOk allocOk : Bool) (readOk : Nat → Bool) : U64 :=
  if seekOk && allocOk then BitVec.ofNat 64 (probeMinOp readOk 4 LO_IO_MIN_SIZE) else 0

/-- The sizes `discover_min_op_bytes` can find. -/
def IsMinOp (m : Nat) : Prop := m = 512 ∨ m = 1024 ∨ m = 2048 ∨ m = 4096

instance (m : Nat) : Decidable (IsMinOp m) := inferInstanceAs (Decidable (_ ∨ _))

theorem discoverMinOpBytes_cases (seekOk allocOk : Bool) (readOk : Nat → Bool) :
    (discoverMinOpBytes seekOk allocOk readOk).toNat = 0 ∨
      IsMinOp (discoverMinOpBytes seekOk allocOk readOk).toNat := by
  unfold discoverMinOpBytes
  split
  · simp only [probeMinOp, LO_IO_MIN_SIZE, HI_IO_MIN_SIZE, IsMinOp]
    cases readOk 512 <;> cases readOk 1024 <;> cases readOk 2048 <;> cases readOk 4096 <;>
      decide
  · exact Or.inl rfl

/-! ## `discover_num_blocks` -/

/-- The geometry fields of a `device` that `discover_num_blocks` fills in. -/
structure Device where
  numLargeBlocks : U64
  numReadOffsets : U64
  minOpBytes : U32
  readBytes : U32
deriving DecidableEq, Repr

/-- `discover_num_blocks`, from the byte size `deviceBytes` the `BLKGETSIZE64` ioctl
returned and the result `minOp` of `discover_min_op_bytes`; `none` where the C returns
`false`. `largeBlockOpsBytes` and `recordBytes` are the `g_cfg` fields. -/
def discoverNumBlocks (largeBlockOpsBytes recordBytes : U32) (deviceBytes minOp : U64) :
    Option Device :=
  let numLargeBlocks : U64 := deviceBytes / largeBlockOpsBytes.setWidth 64
  let minOpBytes : U32 := minOp.setWidth 32
  if numLargeBlocks = 0 ∨ minOpBytes = 0 then none
  else
    let numMinOpBlocks : U64 :=
      (numLargeBlocks * largeBlockOpsBytes.setWidth 64) / minOpBytes.setWidth 64
    let readReqMinOpBlocks : U64 :=
      ((recordBytes + minOpBytes - 1) / minOpBytes).setWidth 64
    some { numLargeBlocks
           minOpBytes
           numReadOffsets := numMinOpBlocks - readReqMinOpBlocks + 1
           readBytes := (readReqMinOpBlocks * minOpBytes.setWidth 64).setWidth 32 }

/-! ## Offsets and transfers -/

/-- A positioned transfer handed to `read_from_device` or `write_to_device`. -/
structure DeviceOp where
  offset : U64
  size : U32
deriving DecidableEq, Repr

/-- `RAND_MAX` of glibc. -/
def RAND_MAX : Nat := 2147483647

/-- A result of `rand()`: an `int` in `[0, RAND_MAX]`. -/
abbrev RandInt := Fin (RAND_MAX + 1)

/-- `rand_31`, from its `rand()` result. -/
def rand31 (r : RandInt) : U32 := BitVec.ofNat 32 r

/-- `rand_48`, from its two `rand()` results `hi` and `lo`. -/
def rand48 (hi lo : RandInt) : U64 :=
  (BitVec.ofNat 64 hi <<< 16) ||| (BitVec.ofNat 64 lo &&& 0xffff)

/-- `random_read_offset`, given the `rand_48()` value `r`. -/
def randomReadOffset (dev : Device) (r : U64) : Option U64 :=
  if dev.numReadOffsets = 0 then none
  else some ((r % dev.numReadOffsets) * dev.minOpBytes.setWidth 64)

/-- `random_large_block_offset`, given the `rand_48()` value `r`. -/
def randomLargeBlockOffset (largeBlockOpsBytes : U32) (dev : Device) (r : U64) :
    Option U64 :=
  if dev.numLargeBlocks = 0 then none
  else some ((r % dev.numLargeBlocks) * largeBlockOpsBytes.setWidth 64)

/-- The transaction read `run_add_readreqs` queues for `dev`: its `offset` and `size`. -/
def readReqOp (dev : Device) (r : U64) : Option DeviceOp :=
  (randomReadOffset dev r).map fun offset => ⟨offset, dev.readBytes⟩

/-- The transfer of `read_and_report_large_block` and of `write_and_report_large_block`:
one `large_block_ops_bytes` block at `random_large_block_offset`. -/
def largeBlockOp (largeBlockOpsBytes : U32) (dev : Device) (r : U64) : Option DeviceOp :=
  (randomLargeBlockOffset largeBlockOpsBytes dev r).map fun offset =>
    ⟨offset, largeBlockOpsBytes⟩

/-- A 128 KiB device with 128 KiB large blocks and 132 KiB records cannot hold one
transaction read. `discover_num_blocks` accepts it all the same, with `num_read_offsets = 0`,
and every `random_read_offset` on it is a remainder by zero. With 1 TiB and records of
`2^32 - 1` bytes, `record_bytes + min_op_bytes - 1` wraps and the reads are `0` bytes. -/
theorem discoverNumBlocks_accepts_too_small :
    discoverNumBlocks 131072 135168 131072 4096 = some ⟨1, 0, 4096, 135168⟩ ∧
      (∀ r, randomReadOffset ⟨1, 0, 4096, 135168⟩ r = none) ∧
      discoverNumBlocks 131072 4294967295 1099511627776 512 =
        some ⟨8388608, 2147483649, 512, 0⟩ :=
  ⟨rfl, fun _ => rfl, rfl⟩

/-! ## What `discover_num_blocks` computes -/

theorem toNat_setWidth_64 (x : U32) : (x.setWidth 64).toNat = x.toNat := by
  simp only [BitVec.toNat_setWidth]; omega

theorem IsMinOp.pos_lt {m : Nat} (h : IsMinOp m) : 0 < m ∧ m < 2 ^ 32 := by
  unfold IsMinOp at h; omega

/-- What a successful `discover_num_blocks` leaves in the device, field by field, in the
source's own terms. -/
theorem discoverNumBlocks_eq_some {L R : U32} {D minOp : U64} {dev : Device}
    (h : discoverNumBlocks L R D minOp = some dev) :
    dev.numLargeBlocks = D / L.setWidth 64 ∧ dev.numLargeBlocks ≠ 0 ∧
      dev.minOpBytes = minOp.setWidth 32 ∧ dev.minOpBytes ≠ 0 ∧
      dev.numReadOffsets = dev.numLargeBlocks * L.setWidth 64 / dev.minOpBytes.setWidth 64 -
        ((R + dev.minOpBytes - 1) / dev.minOpBytes).setWidth 64 + 1 ∧
      dev.readBytes = (((R + dev.minOpBytes - 1) / dev.minOpBytes).setWidth 64 *
        dev.minOpBytes.setWidth 64).setWidth 32 := by
  dsimp only [discoverNumBlocks] at h
  split at h
  · cases h
  · obtain ⟨h1, h2⟩ := not_or.mp ‹_›
    cases h
    exact ⟨rfl, h1, rfl, h2, rfl, rfl⟩

theorem numLargeBlocks_toNat (L : U32) (D : U64) :
    (D / L.setWidth 64).toNat = D.toNat / L.toNat := by
  rw [BitVec.toNat_udiv, toNat_setWidth_64]

theorem numLargeBlocks_pos {L : U32} {D : U64} (h : D / L.setWidth 64 ≠ 0) :
    0 < D.toNat / L.toNat := by
  rw [← numLargeBlocks_toNat]
  exact Nat.pos_of_ne_zero fun h0 => h (BitVec.eq_of_toNat_eq (by simpa using h0))

theorem mul_add_le_of_lt {k n L : Nat} (h : k < n) : k * L + L ≤ n * L := by
  have := Nat.mul_le_mul_right L (Nat.succ_le_of_lt h)
  rwa [Nat.succ_mul] at this

theorem toNat_setWidth_32 {x : U64} (h : x.toNat < 2 ^ 32) : (x.setWidth 32).toNat = x.toNat := by
  simp only [BitVec.toNat_setWidth]; exact Nat.mod_eq_of_lt h

/-- `record_bytes + min_op_bytes - 1` is exact while it fits in 32 bits. -/
theorem roundUp_toNat (R M : U32) (hM : 0 < M.toNat) (hwrap : R.toNat + M.toNat - 1 < 2 ^ 32) :
    (R + M - 1).toNat = R.toNat + M.toNat - 1 := by
  simp only [BitVec.toNat_sub, BitVec.toNat_add, BitVec.ofNat_eq_ofNat, BitVec.toNat_ofNat]
  omega

/-- `read_req_min_op_blocks` is `⌈R / M⌉` while `R + M - 1` fits in 32 bits. -/
theorem readReqMinOpBlocks_toNat (R M : U32) (hM : 0 < M.toNat)
    (hwrap : R.toNat + M.toNat - 1 < 2 ^ 32) :
    (((R + M - 1) / M).setWidth 64).toNat = (R.toNat + M.toNat - 1) / M.toNat := by
  have : (R.toNat + M.toNat - 1) / M.toNat ≤ R.toNat + M.toNat - 1 := Nat.div_le_self _ _
  simp only [BitVec.toNat_setWidth, BitVec.toNat_udiv, roundUp_toNat R M hM hwrap]
  exact Nat.mod_eq_of_lt (by omega)

/-- The read geometry in exact arithmetic, for a device that holds one transaction read:
`num_read_offsets = num_min_op_blocks - read_req_min_op_blocks + 1` and
`read_bytes = read_req_min_op_blocks * M`, neither wrapped. -/
theorem readGeometry_toNat {L R : U32} {D minOp : U64} {dev : Device}
    (hM : IsMinOp minOp.toNat) (hwrap : R.toNat + minOp.toNat - 1 < 2 ^ 32)
    (hroom : (R.toNat + minOp.toNat - 1) / minOp.toNat ≤
      D.toNat / L.toNat * L.toNat / minOp.toNat)
    (h : discoverNumBlocks L R D minOp = some dev) :
    dev.minOpBytes.toNat = minOp.toNat ∧
      dev.numReadOffsets.toNat = D.toNat / L.toNat * L.toNat / minOp.toNat -
        (R.toNat + minOp.toNat - 1) / minOp.toNat + 1 ∧
      dev.readBytes.toNat = (R.toNat + minOp.toNat - 1) / minOp.toNat * minOp.toNat := by
  obtain ⟨hnlb, -, hmin, -, hnro, hrb⟩ := discoverNumBlocks_eq_some h
  obtain ⟨hM0, hM32⟩ := hM.pos_lt
  have hm : dev.minOpBytes.toNat = minOp.toNat := hmin ▸ toNat_setWidth_32 hM32
  have hm64 : (dev.minOpBytes.setWidth 64).toNat = minOp.toNat := by rw [toNat_setWidth_64, hm]
  have hrr := readReqMinOpBlocks_toNat R dev.minOpBytes (hm ▸ hM0) (hm ▸ hwrap)
  rw [hm] at hrr
  have hdown : (R.toNat + minOp.toNat - 1) / minOp.toNat * minOp.toNat ≤
      R.toNat + minOp.toNat - 1 := Nat.div_mul_le_self _ _
  have hnL : D.toNat / L.toNat * L.toNat ≤ D.toNat := Nat.div_mul_le_self _ _
  generalize (R.toNat + minOp.toNat - 1) / minOp.toNat = rr at hrr hroom hdown
  have hb : D.toNat / L.toNat * L.toNat / minOp.toNat * 2 ≤ D.toNat / L.toNat * L.toNat := by
    have := Nat.div_mul_le_self (D.toNat / L.toNat * L.toNat) minOp.toNat
    have := Nat.mul_le_mul_left (D.toNat / L.toNat * L.toNat / minOp.toNat)
      (by unfold IsMinOp at hM; omega : 2 ≤ minOp.toNat)
    omega
  have hnmob : (dev.numLargeBlocks * L.setWidth 64 / dev.minOpBytes.setWidth 64).toNat =
      D.toNat / L.toNat * L.toNat / minOp.toNat := by
    rw [BitVec.toNat_udiv, BitVec.toNat_mul, hnlb, numLargeBlocks_toNat, toNat_setWidth_64, hm64,
      Nat.mod_eq_of_lt (by omega)]
  refine ⟨hm, ?_, ?_⟩
  · rw [hnro, BitVec.toNat_add, BitVec.toNat_sub, hnmob, hrr]
    simp only [BitVec.ofNat_eq_ofNat, BitVec.toNat_ofNat, Nat.reducePow, Nat.reduceMod]
    omega
  · rw [hrb, BitVec.toNat_setWidth, BitVec.toNat_mul, hm64, hrr]
    omega

/-- A device that holds one transaction read, with no wrap of `R + M - 1`:
`discover_num_blocks` leaves at least one read offset and rounds the record up to whole
`M`-blocks, and every transaction read `run_add_readreqs` queues is `M`-aligned and ends
inside the large blocks, which end inside the device. -/
theorem readReqOp_within_device (L R : U32) (D minOp r : U64) (dev : Device)
    (hM : IsMinOp minOp.toNat) (hwrap : R.toNat + minOp.toNat - 1 < 2 ^ 32)
    (hroom : (R.toNat + minOp.toNat - 1) / minOp.toNat ≤
      D.toNat / L.toNat * L.toNat / minOp.toNat)
    (h : discoverNumBlocks L R D minOp = some dev) :
    1 ≤ dev.numReadOffsets.toNat ∧ dev.readBytes.toNat % minOp.toNat = 0 ∧
      R.toNat ≤ dev.readBytes.toNat ∧ dev.readBytes.toNat < R.toNat + minOp.toNat ∧
      ∃ op, readReqOp dev r = some op ∧ op.size = dev.readBytes ∧
        op.offset.toNat = r.toNat % dev.numReadOffsets.toNat * minOp.toNat ∧
        op.offset.toNat % minOp.toNat = 0 ∧
        op.offset.toNat + op.size.toNat ≤ dev.numLargeBlocks.toNat * L.toNat ∧
        dev.numLargeBlocks.toNat * L.toNat ≤ D.toNat := by
  obtain ⟨hm, hnro, hrb⟩ := readGeometry_toNat hM hwrap hroom h
  obtain ⟨hnlb, -⟩ := discoverNumBlocks_eq_some h
  have hM0 := hM.pos_lt.1
  have hnlb' : dev.numLargeBlocks.toNat = D.toNat / L.toNat := by
    rw [hnlb, numLargeBlocks_toNat]
  have hnL : D.toNat / L.toNat * L.toNat ≤ D.toNat := Nat.div_mul_le_self _ _
  have hbM : D.toNat / L.toNat * L.toNat / minOp.toNat * minOp.toNat ≤
      D.toNat / L.toNat * L.toNat := Nat.div_mul_le_self _ _
  have hup : R.toNat + minOp.toNat - 1 <
      (R.toNat + minOp.toNat - 1) / minOp.toNat * minOp.toNat + minOp.toNat :=
    Nat.lt_div_mul_add hM0
  have hdown : (R.toNat + minOp.toNat - 1) / minOp.toNat * minOp.toNat ≤
      R.toNat + minOp.toNat - 1 := Nat.div_mul_le_self _ _
  generalize (R.toNat + minOp.toNat - 1) / minOp.toNat = rr at hroom hnro hrb hup hdown
  generalize D.toNat / L.toNat * L.toNat / minOp.toNat = b at hroom hnro hbM
  have hk : r.toNat % (b - rr + 1) < b - rr + 1 := Nat.mod_lt _ (by omega)
  have hkM : (r.toNat % (b - rr + 1) + rr) * minOp.toNat ≤ b * minOp.toNat :=
    Nat.mul_le_mul_right _ (by omega)
  rw [Nat.add_mul] at hkM
  have hnz : dev.numReadOffsets ≠ 0 := fun h0 => by simp [h0] at hnro
  have hoff : (r % dev.numReadOffsets * dev.minOpBytes.setWidth 64).toNat =
      r.toNat % (b - rr + 1) * minOp.toNat := by
    rw [BitVec.toNat_mul, BitVec.toNat_umod, hnro, toNat_setWidth_64, hm]
    omega
  refine ⟨by omega, by rw [hrb]; exact Nat.mul_mod_left _ _, by omega, by omega,
    ⟨r % dev.numReadOffsets * dev.minOpBytes.setWidth 64, dev.readBytes⟩,
    by simp only [readReqOp, randomReadOffset, if_neg hnz, Option.map_some'], rfl,
    by rw [hoff, hnro], by rw [hoff]; exact Nat.mul_mod_left _ _,
    by rw [hoff, hrb, hnlb']; omega, by rw [hnlb']; exact hnL⟩

/-- The transaction reads of the 1 GiB device of the spec's scenarios (128 KiB blocks,
1536-byte records, 4096-byte blocks), at \`rand_48() = 12345\`. -/
theorem readReqOp_within_device_oneGiB :
    discoverNumBlocks 131072 1536 1073741824 4096 = some ⟨8192, 262144, 4096, 4096⟩ ∧
      IsMinOp (4096 : U64).toNat ∧ (1536 : U32).toNat + (4096 : U64).toNat - 1 < 2 ^ 32 ∧
      ((1536 : U32).toNat + (4096 : U64).toNat - 1) / (4096 : U64).toNat ≤
        (1073741824 : U64).toNat / (131072 : U32).toNat * (131072 : U32).toNat /
          (4096 : U64).toNat ∧
      (1 ≤ (262144 : U64).toNat ∧ (4096 : U32).toNat % (4096 : U64).toNat = 0 ∧
      (1536 : U32).toNat ≤ (4096 : U32).toNat ∧
      (4096 : U32).toNat < (1536 : U32).toNat + (4096 : U64).toNat ∧
      ∃ op, readReqOp ⟨8192, 262144, 4096, 4096⟩ 12345 = some op ∧ op.size = 4096 ∧
        op.offset.toNat = (12345 : U64).toNat % (262144 : U64).toNat * (4096 : U64).toNat ∧
        op.offset.toNat % (4096 : U64).toNat = 0 ∧
        op.offset.toNat + op.size.toNat ≤ (8192 : U64).toNat * (131072 : U32).toNat ∧
        (8192 : U64).toNat * (131072 : U32).toNat ≤ (1073741824 : U64).toNat) :=
  ⟨rfl, by decide, by decide, by decide,
    readReqOp_within_device 131072 1536 1073741824 4096 12345 _ (by decide) (by decide)
      (by decide) rfl⟩

/-! ## Large-block transfers -/

/-- Every large-block transfer is block `k` of the device for some `k` below
`num_large_blocks`: it is `L`-aligned, `L` bytes long, computed without wrap, and ends
inside the device. -/
theorem largeBlockOp_within_device (L R : U32) (D minOp r : U64) (dev : Device)
    (h : discoverNumBlocks L R D minOp = some dev) :
    ∃ k op, largeBlockOp L dev r = some op ∧ k < dev.numLargeBlocks.toNat ∧
      op.offset.toNat = k * L.toNat ∧ op.size = L ∧
      op.offset.toNat + L.toNat ≤ dev.numLargeBlocks.toNat * L.toNat ∧
      dev.numLargeBlocks.toNat * L.toNat ≤ D.toNat := by
  obtain ⟨hnlb, hn, -⟩ := discoverNumBlocks_eq_some h
  have hnlb' : dev.numLargeBlocks.toNat = D.toNat / L.toNat := by
    rw [hnlb, numLargeBlocks_toNat]
  have hk : r.toNat % (D.toNat / L.toNat) < D.toNat / L.toNat :=
    Nat.mod_lt _ (numLargeBlocks_pos (hnlb ▸ hn))
  have hroom := mul_add_le_of_lt (L := L.toNat) hk
  have hD : D.toNat / L.toNat * L.toNat ≤ D.toNat := Nat.div_mul_le_self _ _
  refine ⟨r.toNat % (D.toNat / L.toNat), ⟨r % dev.numLargeBlocks * L.setWidth 64, L⟩,
    by simp only [largeBlockOp, randomLargeBlockOffset, if_neg hn, Option.map_some'], hnlb' ▸ hk,
    ?_, rfl, ?_, ?_⟩
  all_goals simp only [hnlb', BitVec.toNat_mul, BitVec.toNat_umod, toNat_setWidth_64]
  all_goals omega

/-- A 1 GiB device with 128 KiB blocks and 1536-byte records: the draw `12345` selects
block `12345 % 8192 = 4153`, at byte `4153 * 131072 = 544342016`. -/
theorem largeBlockOp_within_device_oneGiB :
    discoverNumBlocks 131072 1536 1073741824 4096 = some ⟨8192, 262144, 4096, 4096⟩ ∧
      largeBlockOp 131072 ⟨8192, 262144, 4096, 4096⟩ 12345 = some ⟨544342016, 131072⟩ ∧
      ∃ k op, largeBlockOp 131072 ⟨8192, 262144, 4096, 4096⟩ 12345 = some op ∧
        k < (8192 : U64).toNat ∧ op.offset.toNat = k * (131072 : U32).toNat ∧
        op.size = 131072 ∧
        op.offset.toNat + (131072 : U32).toNat ≤ (8192 : U64).toNat * (131072 : U32).toNat ∧
        (8192 : U64).toNat * (131072 : U32).toNat ≤ (1073741824 : U64).toNat :=
  ⟨rfl, rfl, largeBlockOp_within_device 131072 1536 1073741824 4096 12345 _ rfl⟩

end Act
