import Rustwall.Wire.Udp

/-!
# Build configuration

`utils.rs` reads its sizes from a `constants` module that is not among the sources; the spec
calls them "named values, tunable at build time". A `Config` holds them, with the one constraint
the spec puts on them: `MTU_UDP` is a positive multiple of 8, since it is the unit of IPv4
fragment offsets. The staleness threshold of the reassembly table and the byte order of the
target, which `process_udp`'s `transmute` depends on, are part of the build as well.
-/

namespace Rustwall

/-- The constants of `constants.rs` and the target properties the pipeline depends on. -/
structure Config where
  /-- `BUFFER_SIZE`: the capacity of the shared driver and client buffers. -/
  bufferSize : Nat
  /-- `MTU_UDP`: the IPv4 payload carried by each fragment the firewall emits. -/
  mtuUdp : Nat
  /-- `MAX_REASSEMBLED_FRAGMENT_SIZE`: the size of each reassembly buffer. -/
  maxReassembledFragmentSize : Nat
  /-- `MAX_UDP_PACKET_SIZE`: the largest payload length a policy may return. -/
  maxUdpPacketSize : Nat
  /-- `MAX_UDP_PAYLOAD_SIZE`: the capacity requested for the policy's buffer. -/
  maxUdpPayloadSize : Nat
  /-- `SUPPORTED_FRAGMENTS`: reassembly entries per direction. -/
  supportedFragments : Nat
  /-- `MAX_ENQUEUED_PACKETS`: the capacity of each outbound queue. -/
  maxEnqueuedPackets : Nat
  /-- The age, in timestamp ticks, past which a reassembly entry may be reused. -/
  fragmentTimeout : Nat
  /-- Whether the target stores a `u32` least significant byte first. -/
  nativeLittleEndian : Bool
  mtuUdp_pos : 0 < mtuUdp
  mtuUdp_mod : mtuUdp % 8 = 0

/-- `x as usize` for an `i32` on a 64-bit target: sign-extended, so a negative `x` becomes
`2^64 + x`. -/
def i32AsUsize (x : Int) : Nat := (x % 2 ^ 64).toNat

theorem i32AsUsize_of_nonneg {x : Int} (h0 : 0 ≤ x) (h : x < 2 ^ 63) : i32AsUsize x = x.toNat := by
  rw [i32AsUsize]; omega

theorem i32AsUsize_of_neg {x : Int} (h0 : x < 0) (h : -2 ^ 63 ≤ x) : 2 ^ 63 ≤ i32AsUsize x := by
  rw [i32AsUsize]; omega

/-- A small build, with every size scaled down, on which the pipeline can be run by `decide`: two
reassembly entries of 128 bytes, fragments of 16 bytes, policy results of at most 64 bytes. -/
def Config.small : Config :=
  ⟨2048, 16, 128, 64, 56, 2, 4, 2, true, by decide, by decide⟩

end Rustwall
