import Rustwall.Driver.Rx

/-!
# The shared buffers

Frames cross between the firewall, the driver and the client through two shared buffers of
`BUFFER_SIZE` bytes. `sel4_buffer_insert` copies a frame over a buffer's first bytes and returns
its length; `sel4_buffer_fetch` reads the first `len` bytes back. `dispatch_data_to_ethdriver`
inserts into the driver buffer and hands `len as i32` to `ethdriver_tx`;
`copy_data_to_client_buf` inserts into the client buffer and returns `len as i32`;
`fetch_client_data` fetches from it. The mutexes around each call only order the component's
threads and are left out.

* `sel4BufferFetch_overwrite`: after an insert, a fetch of any length below `BUFFER_SIZE` reads
  the inserted bytes and, past them, the bytes the buffer held before.
* `copyDataToClientBuf_fetchClientData`: with `BUFFER_SIZE ≤ 2^31`, a frame shorter than the
  buffer is copied, its length is returned, and fetching that length reads it back; a longer one
  panics.
-/

namespace Rustwall

/-- `len as i32` for a `usize`: the low 32 bits, read as a signed integer. -/
def usizeAsI32 (n : Nat) : Int := Int.bmod n (2 ^ 32)

theorem usizeAsI32_of_lt {n : Nat} (h : n < 2 ^ 31) : usizeAsI32 n = n := by
  unfold usizeAsI32 Int.bmod
  rw [Int.emod_eq_of_lt (by omega) (by omega), if_pos (by omega)]

/-- The buffer after `slice[..].clone_from_slice(data)` over its first `data.len()` bytes. -/
def overwrite (data : Bytes) (buffer : Nat → UInt8) : Nat → UInt8 :=
  fun i => if i < data.length then data.getD i 0 else buffer i

/-- `sel4_buffer_insert(data, buffer)`: after `assert!(len < BUFFER_SIZE)`, the number of bytes
copied and the buffer after the copy. The buffer pointer is never null (§6). -/
def sel4BufferInsert (cfg : Config) (data : Bytes) (buffer : Nat → UInt8) :
    Except Fault (Nat × (Nat → UInt8)) :=
  if data.length < cfg.bufferSize then .ok (data.length, overwrite data buffer) else .error .panic

/-- `dispatch_data_to_ethdriver(data)` against the driver's transmit call, which is given
`len as i32` and reads the driver buffer: the driver's answer and the driver buffer after. -/
def dispatchDataToEthdriver (cfg : Config) (ethdriverTx : Int → (Nat → UInt8) → Int) (data : Bytes)
    (buffer : Nat → UInt8) : Except Fault (Int × (Nat → UInt8)) :=
  match sel4BufferInsert cfg data buffer with
  | .ok (len, buffer) => .ok (ethdriverTx (usizeAsI32 len) buffer, buffer)
  | .error f => .error f

/-- `copy_data_to_client_buf(data)`: `val as i32` and the client buffer after. -/
def copyDataToClientBuf (cfg : Config) (data : Bytes) (buffer : Nat → UInt8) :
    Except Fault (Int × (Nat → UInt8)) :=
  match sel4BufferInsert cfg data buffer with
  | .ok (val, buffer) => .ok (usizeAsI32 val, buffer)
  | .error f => .error f

/-- `fetch_client_data(len)` from the client buffer. -/
def fetchClientData (cfg : Config) (len : Nat) (buffer : Nat → UInt8) : Except Fault Bytes :=
  sel4BufferFetch cfg len buffer

/-! ## Insert, then fetch -/

theorem sel4BufferInsert_eq_ok {cfg : Config} {data : Bytes} (h : data.length < cfg.bufferSize)
    (buffer : Nat → UInt8) : sel4BufferInsert cfg data buffer = .ok (data.length, overwrite data buffer) :=
  if_pos h

theorem sel4BufferInsert_eq_panic {cfg : Config} {data : Bytes} (h : cfg.bufferSize ≤ data.length)
    (buffer : Nat → UInt8) : sel4BufferInsert cfg data buffer = .error .panic :=
  if_neg (by omega)

/-- What a fetch returns: `len` bytes, below `BUFFER_SIZE`. -/
theorem length_of_sel4BufferFetch {cfg : Config} {len : Nat} {buffer : Nat → UInt8} {data : Bytes}
    (h : sel4BufferFetch cfg len buffer = .ok data) : data.length = len ∧ len < cfg.bufferSize := by
  unfold sel4BufferFetch at h
  split at h
  · cases h; exact ⟨by simp, by assumption⟩
  · cases h

theorem map_range_overwrite (data : Bytes) (buffer : Nat → UInt8) (k : Nat) :
    (List.range k).map (overwrite data buffer) =
      data.take k ++ (List.range (k - data.length)).map fun i => buffer (data.length + i) := by
  refine List.ext_getElem (by simp; omega) fun i h₁ h₂ => ?_
  have hik : i < k := by simpa using h₁
  simp only [List.getElem_map, List.getElem_range, overwrite, List.getElem_append, List.length_take]
  by_cases hi : i < data.length
  · rw [if_pos hi, dif_pos (by omega), List.getElem_take, List.getD_eq_getElem _ _ hi]
  · rw [if_neg hi, dif_neg (by omega)]
    congr 1
    omega

/-- After an insert, a fetch of `k` bytes reads the first `k` inserted bytes, then the bytes the
buffer held before from the end of the inserted ones on: an insert leaves the rest of the buffer
as it was. -/
theorem sel4BufferFetch_overwrite (cfg : Config) (data : Bytes) (buffer : Nat → UInt8) {k : Nat}
    (hk : k < cfg.bufferSize) :
    sel4BufferFetch cfg k (overwrite data buffer) =
      .ok (data.take k ++ (List.range (k - data.length)).map fun i => buffer (data.length + i)) := by
  rw [sel4BufferFetch, if_pos hk, map_range_overwrite]

/-- Fetching the inserted length reads the inserted bytes back. -/
theorem sel4BufferFetch_insert {cfg : Config} {data : Bytes} (h : data.length < cfg.bufferSize)
    (buffer : Nat → UInt8) : sel4BufferFetch cfg data.length (overwrite data buffer) = .ok data := by
  rw [sel4BufferFetch_overwrite cfg data buffer h, List.take_length, Nat.sub_self, List.range_zero,
    List.map_nil, List.append_nil]

/-- With `BUFFER_SIZE ≤ 2^31`, `copy_data_to_client_buf` copies a frame shorter than the buffer and
returns its length, and `fetch_client_data` of that length reads it back; a frame of
`BUFFER_SIZE` bytes or more panics. -/
theorem copyDataToClientBuf_fetchClientData (cfg : Config) (hbuf : cfg.bufferSize ≤ 2 ^ 31)
    (data : Bytes) (buffer : Nat → UInt8) :
    (data.length < cfg.bufferSize → ∃ buffer', copyDataToClientBuf cfg data buffer =
        .ok (data.length, buffer') ∧ fetchClientData cfg data.length buffer' = .ok data) ∧
      (cfg.bufferSize ≤ data.length → copyDataToClientBuf cfg data buffer = .error .panic) := by
  refine ⟨fun h => ⟨overwrite data buffer, ?_, ?_⟩, fun h => ?_⟩
  · rw [copyDataToClientBuf, sel4BufferInsert_eq_ok h]
    dsimp only
    rw [usizeAsI32_of_lt (by omega)]
  · exact sel4BufferFetch_insert h buffer
  · rw [copyDataToClientBuf, sel4BufferInsert_eq_panic h]

/-- `Config.small`'s buffer of 2048 bytes takes a 2047-byte frame and gives it back. -/
theorem copyDataToClientBuf_fetchClientData_small :
    Config.small.bufferSize ≤ 2 ^ 31 ∧
      ((List.replicate 2047 (7 : UInt8)).length < Config.small.bufferSize →
        ∃ buffer', copyDataToClientBuf Config.small (List.replicate 2047 7) (fun _ => 0) =
          .ok ((List.replicate 2047 (7 : UInt8)).length, buffer') ∧
          fetchClientData Config.small (List.replicate 2047 (7 : UInt8)).length buffer' =
            .ok (List.replicate 2047 7)) :=
  ⟨by decide, (copyDataToClientBuf_fetchClientData Config.small (by decide) _ _).1⟩

/-- `dispatch_data_to_ethdriver` hands the driver the frame's length and a buffer that starts with
the frame. -/
theorem dispatchDataToEthdriver_eq_ok {cfg : Config} (hbuf : cfg.bufferSize ≤ 2 ^ 31)
    (ethdriverTx : Int → (Nat → UInt8) → Int) {data : Bytes} (h : data.length < cfg.bufferSize)
    (buffer : Nat → UInt8) :
    dispatchDataToEthdriver cfg ethdriverTx data buffer =
      .ok (ethdriverTx data.length (overwrite data buffer), overwrite data buffer) := by
  rw [dispatchDataToEthdriver, sel4BufferInsert_eq_ok h]
  dsimp only
  rw [usizeAsI32_of_lt (by omega)]

end Rustwall
