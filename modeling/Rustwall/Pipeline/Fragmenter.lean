import Rustwall.Reassembly.FragmentSet

/-!
# The IPv4 fragmenter

`fragment_large_udp_packet` wraps a UDP packet into IPv4: one packet when it is shorter than
`MTU_UDP`, otherwise a first fragment of `MTU_UDP` bytes, middle fragments of `MTU_UDP` bytes
while more than `MTU_UDP` bytes remain (the `while remaining_len > MTU_UDP` loop), and a last
fragment with the rest. A zero identification is replaced by the next value of
`get_pseudorandom_packet_id`, a wrapping `u16` counter.

Each packet is built the same way: a zeroed buffer of `20 + len` bytes, `Ipv4Repr::emit`, the
chunk copied into `payload_mut()` (which panics unless the emitted total length is `20 + len`),
then the fragment fields and the checksum.
-/

namespace Rustwall

open Ipv4Packet

/-- `get_pseudorandom_packet_id`: the static `SEED`, incremented, is the new identification. -/
def getPseudorandomPacketId (seed : UInt16) : UInt16 := seed + 1

/-- The buffer after `Ipv4Repr::emit` for a UDP chunk and `payload_mut().copy_from_slice(chunk)`. -/
def emitChunk (src dst : Ipv4Address) (chunk : Bytes) : Except Fault Bytes :=
  let ipRepr : Ipv4Repr := ⟨src, dst, ipProtocolUdp, chunk.length, 64⟩
  let p := ipRepr.emit (List.replicate (ipRepr.bufferLen + chunk.length) 0)
  if totalLen p < 20 ∨ totalLen p - 20 ≠ chunk.length then .error .panic
  else .ok (p.take 20 ++ chunk)

/-- `&udp_packet[lo..hi]`, which panics outside the buffer. -/
def sliceChecked (b : Bytes) (lo hi : Nat) : Except Fault Bytes :=
  if lo ≤ hi ∧ hi ≤ b.length then .ok (slice b lo hi) else .error .panic

/-- The setters of a fragment: identification, offset, MF, DF clear, then the checksum. -/
def fragmentFields (p : Bytes) (packetId : UInt16) (offset : Nat) (more : Bool) : Bytes :=
  fillChecksum (setDontFrag (setMoreFrags (setFragOffset (setIdent p packetId) offset) more) false)

/-- The middle-fragment loop and the last fragment. `start` and `offset` are `start_len` and
`fragment_offset` before an iteration advances them; `fuel` bounds the iterations, each of which
takes `MTU_UDP ≥ 1` bytes off `remaining`. -/
def fragmentTail (mtu : Nat) (udp : Bytes) (src dst : Ipv4Address) (packetId : UInt16) :
    Nat → Nat → Nat → Nat → Except Fault (List Bytes)
  | 0, _, _, _ => .ok []
  | fuel + 1, start, offset, remaining =>
    let start := start + mtu
    let offset := (offset + mtu % 65536) % 65536
    if mtu < remaining then do
      let chunk ← sliceChecked udp start (start + mtu)
      let p ← emitChunk src dst chunk
      let rest ← fragmentTail mtu udp src dst packetId fuel start offset (remaining - mtu)
      pure (fragmentFields p packetId offset true :: rest)
    else do
      let chunk ← sliceChecked udp start udp.length
      let p ← emitChunk src dst chunk
      pure [fragmentFields p packetId offset false]

/-- `fragment_large_udp_packet(udp_packet, src_addr, dst_addr, packet_id)` with the counter `SEED`:
the packets and the counter afterwards. -/
def fragmentLargeUdpPacket (cfg : Config) (udp : Bytes) (src dst : Ipv4Address) (packetId : UInt16)
    (seed : UInt16) : Except Fault (List Bytes) × UInt16 :=
  if udp.length < cfg.mtuUdp then
    let r := do
      let p ← emitChunk src dst udp
      pure [fillChecksum (setIdent p packetId)]
    (r, seed)
  else
    let seed' := if packetId = 0 then getPseudorandomPacketId seed else seed
    let packetId := if packetId = 0 then seed' else packetId
    let r := do
      let chunk ← sliceChecked udp 0 cfg.mtuUdp
      let p ← emitChunk src dst chunk
      let rest ← fragmentTail cfg.mtuUdp udp src dst packetId udp.length 0 0
        (udp.length - cfg.mtuUdp)
      pure (fragmentFields p packetId 0 true :: rest)
    (r, seed')

end Rustwall
