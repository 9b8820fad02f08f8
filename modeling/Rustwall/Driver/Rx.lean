import Rustwall.Config

/-!
# The driver receive iterator

`EthdriverRxStatus` turns the driver's receive primitive into an iterator of frames. Each `next`
that is not yet finished calls `ethdriver_rx(&mut len)`: `-1` means no data and gives `None`; `0`
(the last frame available) and `1` (more available) give the first `len` bytes of the driver
buffer through `sel4_buffer_fetch`, `0` also marking the iterator finished; any other value
panics. A finished iterator gives `None` without calling the driver.

The driver is a black box: `driver k` is what its `k`-th call returns, and the iterator's state is
paired with the number of calls made so far. Over every such response sequence:

* while the driver answers `1`, the iterator yields each response's frame and stays unfinished
  (`rxRun_more`);
* a `0` yields its frame and finishes the iterator, which then answers `None` forever without
  another driver call (`rxRun_finished`);
* a `-1` gives `None` but leaves the iterator unfinished, so the next `next` calls the driver again
  and yields the frame of a `0` or `1` it answers then.
-/

namespace Rustwall

/-- What one call of `ethdriver_rx(&mut len)` gives: its `i32` return value, the `i32` it stores in
`len`, and the driver buffer as the call leaves it. -/
structure RxResponse where
  ret : Int
  len : Int
  buffer : Nat → UInt8
  ret_ge : -2147483648 ≤ ret
  ret_lt : ret < 2147483648
  len_ge : -2147483648 ≤ len
  len_lt : len < 2147483648

/-- `sel4_buffer_fetch(len, buffer)`: the first `len` bytes, after `assert!(len < BUFFER_SIZE)`.
The buffer pointer is never null (§6), so the other assertion always holds. -/
def sel4BufferFetch (cfg : Config) (len : Nat) (buffer : Nat → UInt8) : Except Fault Bytes :=
  if len < cfg.bufferSize then .ok ((List.range len).map buffer) else .error .panic

/-- The receive iterator's own state. -/
structure EthdriverRxStatus where
  finished : Bool
  deriving DecidableEq, Repr

/-- `EthdriverRxStatus::new()`. -/
def EthdriverRxStatus.new : EthdriverRxStatus := ⟨false⟩

namespace EthdriverRxStatus

/-- `next()` against the driver `driver`, with `calls` calls of `ethdriver_rx` made before: the
item, the iterator after, and the calls made after. -/
def next (cfg : Config) (driver : Nat → RxResponse) (st : EthdriverRxStatus) (calls : Nat) :
    Except Fault (Option Bytes) × EthdriverRxStatus × Nat :=
  if st.finished then (.ok none, st, calls)
  else
    let r := driver calls
    if r.ret = -1 then (.ok none, st, calls + 1)
    else if r.ret = 0 ∨ r.ret = 1 then
      let st := if r.ret = 0 then ⟨true⟩ else st
      match sel4BufferFetch cfg (i32AsUsize r.len) r.buffer with
      | .ok data => (.ok (some data), st, calls + 1)
      | .error f => (.error f, st, calls + 1)
    else (.error .panic, st, calls + 1)

/-- `n` calls of `next` in a row: their items, and the iterator and call count after them. -/
def rxRun (cfg : Config) (driver : Nat → RxResponse) :
    Nat → EthdriverRxStatus → Nat → List (Except Fault (Option Bytes)) × EthdriverRxStatus × Nat
  | 0, st, calls => ([], st, calls)
  | n + 1, st, calls =>
    let r := next cfg driver st calls
    let rest := rxRun cfg driver n r.2.1 r.2.2
    (r.1 :: rest.1, rest.2)

/-- The frame a response delivers: the first `len` bytes of the driver buffer. -/
def frame (r : RxResponse) : Bytes := (List.range r.len.toNat).map r.buffer

/-- A response of the driver protocol: status `-1`, `0` or `1`, and `0 ≤ len < BUFFER_SIZE`. -/
def Valid (cfg : Config) (r : RxResponse) : Prop :=
  (r.ret = -1 ∨ r.ret = 0 ∨ r.ret = 1) ∧ 0 ≤ r.len ∧ r.len < cfg.bufferSize

instance (cfg : Config) (r : RxResponse) : Decidable (Valid cfg r) :=
  inferInstanceAs (Decidable (_ ∧ _))

variable {cfg : Config} {driver : Nat → RxResponse}

/-! ## One call -/

@[simp] theorem next_finished (calls : Nat) :
    next cfg driver ⟨true⟩ calls = (.ok none, ⟨true⟩, calls) := rfl

theorem sel4BufferFetch_frame {r : RxResponse} (h : 0 ≤ r.len ∧ r.len < cfg.bufferSize) :
    sel4BufferFetch cfg (i32AsUsize r.len) r.buffer = .ok (frame r) := by
  have hlen : i32AsUsize r.len = r.len.toNat := i32AsUsize_of_nonneg h.1 (by have := r.len_lt; omega)
  rw [sel4BufferFetch, hlen, if_pos (by omega), frame]

theorem next_none {calls : Nat} (h : (driver calls).ret = -1) :
    next cfg driver new calls = (.ok none, new, calls + 1) := by
  simp [next, new, h]

theorem next_more {calls : Nat} (hv : Valid cfg (driver calls)) (h : (driver calls).ret = 1) :
    next cfg driver new calls = (.ok (some (frame (driver calls))), new, calls + 1) := by
  simp [next, new, h, sel4BufferFetch_frame hv.2]

theorem next_last {calls : Nat} (hv : Valid cfg (driver calls)) (h : (driver calls).ret = 0) :
    next cfg driver new calls = (.ok (some (frame (driver calls))), ⟨true⟩, calls + 1) := by
  simp [next, new, h, sel4BufferFetch_frame hv.2]

/-- A status outside the protocol aborts the component. -/
theorem next_panic {calls : Nat} (h : (driver calls).ret ≠ -1 ∧ (driver calls).ret ≠ 0 ∧
    (driver calls).ret ≠ 1) : (next cfg driver new calls).1 = .error .panic := by
  simp [next, new, h]

/-! ## Runs -/

/-- A finished iterator answers `None` to every later call and never calls the driver. -/
theorem rxRun_finished (calls : Nat) :
    ∀ m, rxRun cfg driver m ⟨true⟩ calls = (List.replicate m (.ok none), ⟨true⟩, calls)
  | 0 => rfl
  | m + 1 => by simp [rxRun, rxRun_finished calls m, List.replicate_succ]

/-- While the driver answers `1`, the iterator yields each response's frame in turn. -/
theorem rxRun_more (hvalid : ∀ k, Valid cfg (driver k)) :
    ∀ n calls, (∀ k < n, (driver (calls + k)).ret = 1) →
      rxRun cfg driver n new calls =
        ((List.range n).map fun k => .ok (some (frame (driver (calls + k)))), new, calls + n)
  | 0, _, _ => rfl
  | n + 1, calls, h => by
    have hstep := next_more (hvalid calls) (by simpa using h 0 (by omega))
    have hrest := rxRun_more hvalid n (calls + 1) fun k hk => by
      simpa [Nat.add_assoc, Nat.add_comm 1 k] using h (k + 1) (by omega)
    simp only [rxRun, hstep, hrest, List.range_succ_eq_map, List.map_cons, List.map_map]
    simp [Function.comp_def, Nat.add_assoc, Nat.add_comm 1]

end EthdriverRxStatus

open EthdriverRxStatus

/-- A driver that delivers a frame, has no data once, then delivers its last frame. -/
def sampleDriver : Nat → RxResponse
  | 0 => ⟨1, 2, fun i => UInt8.ofNat (i + 1), by decide, by decide, by decide, by decide⟩
  | 2 => ⟨0, 1, fun _ => 7, by decide, by decide, by decide, by decide⟩
  | _ => ⟨-1, 0, fun _ => 0, by decide, by decide, by decide, by decide⟩

end Rustwall
