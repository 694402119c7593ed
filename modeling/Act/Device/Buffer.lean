import Act.Device.Geometry

set_option autoImplicit false

/-! # Transaction read buffers

`run_reads` reads each request into a variable-length array on its own stack,
`uint8_t stack_buffer[p_readreq->size + 4096]`, and starts the transfer at `align_4096` of
its address, the next page boundary, as direct I/O asks. The page of slack makes room for
the rounding, so the `size` bytes from the aligned start stay inside the array: this holds
for every stack address (`readBuffer_contains`).

The array length is an `unsigned int` sum, `size` being a `uint32_t`. A request of
`read_bytes` within 4096 of `2^32` gives an array of a few bytes, or none at all
(`readBufferLength_wraps`), and `discover_num_blocks` builds such a request from a
`uint32_t` record size.
-/

namespace Act

/-- `align_4096`. -/
def align4096 (stackBuffer : U64) : U64 := (stackBuffer + 4095) &&& ~~~4095

/-- The length `run_reads` declares for the stack buffer of a request of `size` bytes. -/
def readBufferLength (size : U32) : U32 := size + 4096

/-- A record of `2^32 - 4096` bytes on a 1 TiB device with 4096-byte blocks: the request's
`size` is `4294963200`, and the stack buffer for it is `0` bytes long. -/
theorem readBufferLength_wraps :
    discoverNumBlocks 131072 4294963200 1099511627776 4096 =
        some ⟨8388608, 267386882, 4096, 4294963200⟩ ∧
      readBufferLength 4294963200 = 0 :=
  ⟨rfl, rfl⟩

/-- Clearing the low twelve bits is shifting them out and back. -/
theorem and_not_4095 (x : U64) : x &&& ~~~(4095 : U64) = (x >>> 12) <<< 12 := by
  ext i
  have h4095 : (4095 : U64) = BitVec.ofNat 64 (2 ^ 12 - 1) := rfl
  simp only [BitVec.getLsbD_and, BitVec.getLsbD_not, h4095, BitVec.getLsbD_ofNat,
    Nat.testBit_two_pow_sub_one, BitVec.getLsbD_shiftLeft, BitVec.getLsbD_ushiftRight]
  by_cases h : (i : Nat) < 12
  · simp [h]
  · simp [h, Nat.add_sub_cancel' (Nat.le_of_not_lt h)]

theorem align4096_toNat (a : U64) (h : a.toNat + 4095 < 2 ^ 64) :
    (align4096 a).toNat = (a.toNat + 4095) / 4096 * 4096 := by
  rw [align4096, and_not_4095, BitVec.toNat_shiftLeft, BitVec.toNat_ushiftRight,
    BitVec.toNat_add]
  simp only [Nat.shiftLeft_eq, Nat.shiftRight_eq_div_pow, BitVec.ofNat_eq_ofNat,
    BitVec.toNat_ofNat]
  have : (a.toNat + 4095) / 4096 * 4096 ≤ a.toNat + 4095 := Nat.div_mul_le_self _ _
  omega

/-- `align_4096` rounds up to the next page boundary, by less than a page. -/
theorem align4096_spec (a : U64) (h : a.toNat + 4095 < 2 ^ 64) :
    (align4096 a).toNat % 4096 = 0 ∧ a.toNat ≤ (align4096 a).toNat ∧
      (align4096 a).toNat ≤ a.toNat + 4095 := by
  rw [align4096_toNat a h]
  have := Nat.lt_div_mul_add (a := a.toNat + 4095) (b := 4096) (by decide)
  have := Nat.div_mul_le_self (a.toNat + 4095) 4096
  exact ⟨Nat.mul_mod_left _ _, by omega, by omega⟩

/-- While `size + 4096` fits in 32 bits, the buffer is `size + 4096` bytes and the
transfer `[p, p + size)` from its aligned start `p` lies inside it. -/
theorem readBuffer_contains (size : U32) (a : U64) (hlen : size.toNat + 4096 < 2 ^ 32)
    (h : a.toNat + size.toNat + 4096 < 2 ^ 64) :
    (readBufferLength size).toNat = size.toNat + 4096 ∧
      a.toNat ≤ (align4096 a).toNat ∧
      (align4096 a).toNat + size.toNat ≤ a.toNat + (readBufferLength size).toNat := by
  have hlen' : (readBufferLength size).toNat = size.toNat + 4096 := by
    simp only [readBufferLength, BitVec.toNat_add, BitVec.ofNat_eq_ofNat, BitVec.toNat_ofNat]
    omega
  obtain ⟨-, hlo, hhi⟩ := align4096_spec a (by omega)
  exact ⟨hlen', hlo, by omega⟩

/-- The 4096-byte reads of the 1 GiB device, into a stack array at `0x7ffe1234`. -/
theorem readBuffer_contains_oneGiB :
    (4096 : U32).toNat + 4096 < 2 ^ 32 ∧
      (2147357236 : U64).toNat + (4096 : U32).toNat + 4096 < 2 ^ 64 ∧
      ((readBufferLength 4096).toNat = (4096 : U32).toNat + 4096 ∧
      (2147357236 : U64).toNat ≤ (align4096 2147357236).toNat ∧
      (align4096 2147357236).toNat + (4096 : U32).toNat ≤
        (2147357236 : U64).toNat + (readBufferLength 4096).toNat) :=
  ⟨by decide, by decide, readBuffer_contains 4096 2147357236 (by decide) (by decide)⟩

end Act
