import Rustwall.Pipeline.Fragmenter

/-!
# The policy callout

`process_udp` parses the UDP packet (checksum included), copies its payload into a vector of
capacity `MAX_UDP_PAYLOAD_SIZE` and hands the vector's pointer, the payload length and the
capacity to the external `packet_in`/`packet_out` function. It then rebuilds the vector with
`Vec::from_raw_parts(data_ptr, r as usize, max_data_len)` and, if `0 < r ≤ MAX_UDP_PACKET_SIZE`,
emits a new UDP packet with the same ports and the first `r` bytes at the pointer as payload.
`from_raw_parts` is undefined for a length past the capacity, a negative `r` included, since
`r as usize` sign-extends it: the model ends such a call in `Fault.undefined`, and reads the
buffer only below its capacity.

The external function is a black box: a `Policy` maps the call's arguments to its `i32` result and
to the bytes at the buffer's pointer after the call. The pipeline calls it once per invocation,
so a run that takes one `Policy` per invocation covers every behaviour of a stateful callee.
-/

namespace Rustwall

/-- The arguments of `ExternalFirewallWrapper::call`: the two addresses as `u32`s, the ports, the
payload length as a `u16`, the bytes at `data_ptr` (the UDP payload) and the capacity as a `u16`. -/
structure PolicyCall where
  srcAddr : UInt32
  srcPort : UInt16
  dstAddr : UInt32
  dstPort : UInt16
  payloadLen : UInt16
  payload : Bytes
  maxPayloadLen : UInt16
  deriving DecidableEq, Repr

/-- What a call of the external function returns: an `i32` and the bytes at the pointer after,
which the model reads only below the buffer's capacity. -/
structure PolicyResult where
  ret : Int
  buffer : Nat → UInt8
  ret_ge : -2147483648 ≤ ret
  ret_lt : ret < 2147483648

/-- The external decision function, one call. -/
abbrev Policy := PolicyCall → PolicyResult

/-- The policy that passes every packet unchanged: it returns the payload length it was given and
leaves the buffer as it is. -/
def identityPolicy : Policy := fun c =>
  ⟨c.payloadLen.toNat, fun i => c.payload.getD i 0, by omega, by have := c.payloadLen.toNat_lt; omega⟩

/-- The policy that drops every packet: it returns 0. -/
def dropPolicy : Policy := fun _ => ⟨0, fun _ => 0, by decide, by decide⟩

/-- `std::mem::transmute::<[u8; 4], u32>` on the target. -/
def u32FromNeBytes (cfg : Config) (a : Ipv4Address) : UInt32 :=
  let b := if cfg.nativeLittleEndian then a.bytes.reverse else a.bytes
  UInt32.ofNat (b.foldl (fun acc x => acc * 256 + x.toNat) 0)

/-- The capacity of `Vec::with_capacity(cap)` after `extend_from_slice` of `len` bytes, which
grows it to `max(8, 2 * cap, len)` when the slice does not fit. -/
def vecCapacity (cap len : Nat) : Nat := if len ≤ cap then cap else max 8 (max (2 * cap) len)

/-- The arguments `process_udp` passes to the external function for `udp_packet`: the payload
copied into `Vec::with_capacity(MAX_UDP_PAYLOAD_SIZE)`, its length and the vector's capacity. -/
def policyCall (cfg : Config) (ipRepr : Ipv4Repr) (udpPacket : Bytes) : PolicyCall :=
  let udpData := UdpPacket.payload udpPacket
  let maxDataLen := vecCapacity cfg.maxUdpPayloadSize udpData.length
  ⟨u32FromNeBytes cfg ipRepr.srcAddr, UInt16.ofNat (UdpPacket.srcPort udpPacket),
    u32FromNeBytes cfg ipRepr.dstAddr, UInt16.ofNat (UdpPacket.dstPort udpPacket),
    UInt16.ofNat udpData.length, udpData, UInt16.ofNat maxDataLen⟩

/-- Lines 838-855: the UDP packet built around an approved payload, `UdpRepr::emit` into a zeroed
buffer of `buffer_len()` bytes and `fill_checksum`, checked again by `UdpPacket::new_checked`. -/
def emitUdp (src dst : Ipv4Address) (udpRepr : UdpRepr) : Except Fault Bytes := do
  let packet ← udpRepr.emit src dst (List.replicate udpRepr.bufferLen 0)
  liftErr (UdpPacket.newChecked (UdpPacket.fillChecksum src dst packet))

/-- `process_udp(ip_repr, ip_payload, external_firewall_fn)`. `Vec::from_raw_parts` (line 825)
comes before the acceptance test, and is undefined when `r as usize` exceeds `max_data_len`. -/
def processUdp (cfg : Config) (ipRepr : Ipv4Repr) (ipPayload : Bytes) (fw : Policy) :
    Except Fault Bytes := do
  let udpPacket ← liftErr (UdpPacket.newChecked ipPayload)
  let _udpRepr ← liftErr (UdpRepr.parse ipRepr.srcAddr ipRepr.dstAddr udpPacket)
  let maxDataLen := vecCapacity cfg.maxUdpPayloadSize (UdpPacket.payload udpPacket).length
  let result := fw (policyCall cfg ipRepr udpPacket)
  if maxDataLen < i32AsUsize result.ret then .error .undefined
  else if 0 < result.ret ∧ result.ret.toNat ≤ cfg.maxUdpPacketSize then
    emitUdp ipRepr.srcAddr ipRepr.dstAddr ⟨UdpPacket.srcPort udpPacket, UdpPacket.dstPort udpPacket,
      (List.range result.ret.toNat).map result.buffer⟩
  else .error (.err .dropped)

end Rustwall
