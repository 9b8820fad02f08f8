import Mathlib

/-!
# Byte buffers and the Internet checksum

Frames, packets and the reassembly buffers of `utils.rs` are `Vec<u8>` and `&[u8]`; here they
are lists of bytes. Header fields are read and written in network byte order (`readU16`,
`writeU16`), and the checksum is smoltcp's `checksum::data`: the 16-bit big-endian words of the
buffer, an odd last byte padded with zero, added with end-around carry (`checksumData`).

The one fact about the checksum the pipeline relies on is `propagateCarries_fill`: writing the
complement of the sum into a zeroed checksum word makes the sum of the buffer `0xffff`, which is
what `verify_checksum` tests.
-/

namespace Rustwall

/-- A Rust `Vec<u8>` or `&[u8]`. -/
abbrev Bytes := List UInt8

/-- `NetworkEndian::read_u16` of the bytes `i` and `i + 1`. -/
def readU16 (b : Bytes) (i : Nat) : Nat :=
  (b.getD i 0).toNat * 256 + (b.getD (i + 1) 0).toNat

/-- `NetworkEndian::write_u16` of `v` into the bytes `i` and `i + 1`. -/
def writeU16 (b : Bytes) (i v : Nat) : Bytes :=
  (b.set i (UInt8.ofNat (v / 256))).set (i + 1) (UInt8.ofNat v)

/-- The bytes `[lo, hi)` of `b`, as the slice `&b[lo..hi]`. -/
def slice (b : Bytes) (lo hi : Nat) : Bytes := (b.take hi).drop lo

@[simp] theorem toNat_uint8_ofNat (v : Nat) : (UInt8.ofNat v).toNat = v % 256 := rfl

@[simp] theorem toNat_uint16_ofNat (v : Nat) : (UInt16.ofNat v).toNat = v % 65536 := rfl

@[simp] theorem uint16_ofNat_toNat (x : UInt16) : UInt16.ofNat x.toNat = x :=
  UInt16.ext (Nat.mod_eq_of_lt x.toNat_lt)

theorem readU16_lt (b : Bytes) (i : Nat) : readU16 b i < 65536 := by
  have h1 := (b.getD i 0).toNat_lt
  have h2 := (b.getD (i + 1) 0).toNat_lt
  unfold readU16
  omega

@[simp] theorem length_writeU16 (b : Bytes) (i v : Nat) : (writeU16 b i v).length = b.length := by
  simp [writeU16]

@[simp] theorem length_slice (b : Bytes) (lo hi : Nat) :
    (slice b lo hi).length = min hi b.length - lo := by
  simp [slice]

theorem slice_eq_take_drop (b : Bytes) (lo hi : Nat) : slice b lo hi = (b.drop lo).take (hi - lo) :=
  List.drop_take hi lo b

theorem getD_writeU16_of_ne (b : Bytes) (i v j : Nat) (h₁ : j ≠ i) (h₂ : j ≠ i + 1) :
    (writeU16 b i v).getD j 0 = b.getD j 0 := by
  simp only [writeU16, List.getD_eq_getElem?_getD, List.getElem?_set, if_neg (Ne.symm h₁),
    if_neg (Ne.symm h₂)]

theorem readU16_writeU16 (b : Bytes) (i v : Nat) (h : i + 1 < b.length) :
    readU16 (writeU16 b i v) i = v % 65536 := by
  have h0 : i < b.length := by omega
  simp [readU16, writeU16, List.getElem?_set, h0, h]
  omega

theorem readU16_writeU16_of_disjoint (b : Bytes) (i v j : Nat) (h : j + 1 < i ∨ i + 1 < j) :
    readU16 (writeU16 b i v) j = readU16 b j := by
  unfold readU16
  rw [getD_writeU16_of_ne _ _ _ _ (by omega) (by omega),
    getD_writeU16_of_ne _ _ _ _ (by omega) (by omega)]

theorem slice_writeU16 (b : Bytes) (i v lo hi : Nat) (h : i + 1 < lo) :
    slice (writeU16 b i v) lo hi = slice b lo hi := by
  simp only [slice, writeU16, List.set_take, List.drop_set_of_lt _ _ h,
    List.drop_set_of_lt _ _ (show i < lo by omega)]

theorem getD_take (b : Bytes) (n j : Nat) (h : j < n) : (b.take n).getD j 0 = b.getD j 0 := by
  simp [List.getD_eq_getElem?_getD, List.getElem?_take, h]

theorem readU16_take (b : Bytes) (n i : Nat) (h : i + 1 < n) : readU16 (b.take n) i = readU16 b i := by
  simp only [readU16, getD_take _ _ _ h, getD_take _ _ _ (show i < n by omega)]

theorem take_writeU16 (b : Bytes) (n i v : Nat) : (writeU16 b i v).take n = writeU16 (b.take n) i v := by
  simp [writeU16, List.set_take]

theorem getD_append_left (a b : Bytes) (j : Nat) (h : j < a.length) :
    (a ++ b).getD j 0 = a.getD j 0 := by
  simp [List.getD_eq_getElem?_getD, List.getElem?_append_left h]

theorem readU16_append_left (a b : Bytes) (i : Nat) (h : i + 1 < a.length) :
    readU16 (a ++ b) i = readU16 a i := by
  simp only [readU16, getD_append_left _ _ _ h, getD_append_left _ _ _ (show i < a.length by omega)]

theorem slice_append (a b : Bytes) : slice (a ++ b) a.length (a.length + b.length) = b := by
  simp [slice, List.take_append_eq_append_take, List.drop_append_eq_append_drop]

/-! ## The Internet checksum -/

/-- The sum of the big-endian 16-bit words of `b`, an odd last byte padded with zero. -/
def wordSum : Bytes → Nat
  | [] => 0
  | [a] => a.toNat * 256
  | a :: c :: rest => (a.toNat * 256 + c.toNat) + wordSum rest

/-- smoltcp's `propagate_carries`: fold the carries of a 32-bit sum into 16 bits. -/
def propagateCarries (w : Nat) : Nat :=
  let s := w / 65536 + w % 65536
  (s / 65536 + s % 65536) % 65536

/-- smoltcp's `checksum::data`. -/
def checksumData (b : Bytes) : Nat := propagateCarries (wordSum b)

/-- smoltcp's `checksum::combine`. -/
def checksumCombine (xs : List Nat) : Nat := propagateCarries xs.sum

/-- Bitwise `!` on a `u16`. -/
def not16 (x : Nat) : Nat := 65535 - x % 65536

theorem propagateCarries_lt (w : Nat) : propagateCarries w < 65536 := Nat.mod_lt _ (by norm_num)

/-- The end-around carry keeps the value modulo `0xffff`, and only a zero sum folds to zero. -/
theorem propagateCarries_spec (w : Nat) (hw : w < 2 ^ 32) :
    propagateCarries w % 65535 = w % 65535 ∧ (propagateCarries w = 0 ↔ w = 0) := by
  simp only [propagateCarries]
  generalize hs : w / 65536 + w % 65536 = s
  have hw' : w % 65535 = s % 65535 := by omega
  rw [Nat.mod_eq_of_lt (show s / 65536 + s % 65536 < 65536 by omega), hw']
  constructor <;> omega

/-- A nonzero sum that is a multiple of `0xffff` folds to `0xffff`, the value that verifies. -/
theorem propagateCarries_of_mod_eq_zero (w : Nat) (hw : w < 2 ^ 32) (h0 : 0 < w)
    (hm : w % 65535 = 0) : propagateCarries w = 65535 := by
  have := propagateCarries_lt w
  have := propagateCarries_spec w hw
  omega

/-- Writing the complement of the sum into a word that was zero makes the sum `0xffff`. -/
theorem propagateCarries_fill (w : Nat) (hw : w + 65535 < 2 ^ 32) :
    propagateCarries (w + not16 (propagateCarries w)) = 65535 := by
  have hlt := propagateCarries_lt w
  obtain ⟨hmod, hzero⟩ := propagateCarries_spec w (by omega)
  have hnot : not16 (propagateCarries w) = 65535 - propagateCarries w := by
    unfold not16; rw [Nat.mod_eq_of_lt hlt]
  rw [hnot]
  have hlt' := propagateCarries_lt (w + (65535 - propagateCarries w))
  obtain ⟨hmod', hzero'⟩ := propagateCarries_spec (w + (65535 - propagateCarries w)) (by omega)
  omega

theorem wordSum_le (b : Bytes) : wordSum b ≤ 65535 * b.length := by
  induction b using wordSum.induct with
  | case1 => simp [wordSum]
  | case2 x => have := x.toNat_lt; simp only [wordSum, List.length_singleton]; omega
  | case3 x y rest ih =>
    have := x.toNat_lt; have := y.toNat_lt
    simp only [wordSum, List.length_cons]
    omega

/-- Overwriting an aligned word changes the sum by the difference of the two words. -/
theorem wordSum_writeU16 (b : Bytes) (i v : Nat) (hi : i % 2 = 0) (hlen : i + 1 < b.length)
    (hv : v < 65536) : wordSum (writeU16 b i v) + readU16 b i = wordSum b + v := by
  induction b using wordSum.induct generalizing i with
  | case1 => simp at hlen
  | case2 x => simp at hlen
  | case3 x y rest ih =>
    rcases i with _ | _ | i
    · simp only [writeU16, readU16, List.set_cons_zero, List.set_cons_succ, wordSum,
        List.getD_cons_zero, List.getD_cons_succ, toNat_uint8_ofNat]
      omega
    · simp at hi
    · have := ih i (by omega) (by simp at hlen; omega)
      simp only [writeU16, readU16, List.set_cons_succ, List.getD_cons_succ, wordSum] at this ⊢
      omega

end Rustwall
