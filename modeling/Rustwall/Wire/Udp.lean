import Rustwall.Wire.Ipv4

/-!
# UDP packets

smoltcp's `UdpPacket` and `UdpRepr`. The checksum covers the IPv4 pseudo-header (the two
addresses, the protocol and the UDP length) and the packet up to its length field; a zero
checksum means "none" on IPv4 and is accepted, and a computed zero is sent as `0xffff`.

`UdpRepr::emit` writes the length field as `(8 + payload.len()) as u16` and then copies the
payload into `payload_mut()[..payload.len()]`; when the length wraps the slice is too short and
the copy panics, which `emit` returns as `Fault.panic`.
-/

namespace Rustwall

namespace UdpPacket

/-- `src_port()`. -/
def srcPort (p : Bytes) : Nat := readU16 p 0

/-- `dst_port()`. -/
def dstPort (p : Bytes) : Nat := readU16 p 2

/-- `len()`: the length field. -/
def len (p : Bytes) : Nat := readU16 p 4

/-- `checksum()`. -/
def checksum (p : Bytes) : Nat := readU16 p 6

/-- `payload()`: the bytes after the header, up to the length field. -/
def payload (p : Bytes) : Bytes := slice p 8 (len p)

/-- `check_len`. -/
def checkLen (p : Bytes) : Except Error Unit :=
  if p.length < 8 then .error .truncated
  else if p.length < len p then .error .truncated
  else if len p < 8 then .error .malformed
  else .ok ()

/-- `UdpPacket::new_checked`. -/
def newChecked (p : Bytes) : Except Error Bytes := checkLen p >>= fun _ => .ok p

theorem eq_of_newChecked {p q : Bytes} (h : newChecked p = .ok q) : q = p := by
  unfold newChecked at h
  cases hc : checkLen p <;> rw [hc] at h <;> cases h
  rfl

/-- `checksum::pseudo_header` for IPv4. -/
def pseudoHeader (src dst : Ipv4Address) (protocol : UInt8) (length : Nat) : Nat :=
  checksumCombine [checksumData src.bytes, checksumData dst.bytes,
    checksumData [0, protocol, UInt8.ofNat (length / 256), UInt8.ofNat length]]

/-- The sum `verify_checksum` and `fill_checksum` compute. -/
def checksumSum (src dst : Ipv4Address) (p : Bytes) : Nat :=
  checksumCombine [pseudoHeader src dst ipProtocolUdp (len p), checksumData (p.take (len p))]

/-- `verify_checksum()`. -/
def verifyChecksum (src dst : Ipv4Address) (p : Bytes) : Bool := checksumSum src dst p == 0xffff

/-- `fill_checksum()`. -/
def fillChecksum (src dst : Ipv4Address) (p : Bytes) : Bytes :=
  let p₀ := writeU16 p 6 0
  let c := not16 (checksumSum src dst p₀)
  writeU16 p₀ 6 (if c = 0 then 0xffff else c)

end UdpPacket

open UdpPacket

/-- smoltcp's `UdpRepr`. -/
structure UdpRepr where
  srcPort : Nat
  dstPort : Nat
  payload : Bytes
  deriving DecidableEq, Repr

namespace UdpRepr

/-- `UdpRepr::parse` with the default checksum capabilities. -/
def parse (src dst : Ipv4Address) (p : Bytes) : Except Error UdpRepr :=
  if UdpPacket.dstPort p = 0 then .error .malformed
  else if !verifyChecksum src dst p && checksum p != 0 then .error .checksum
  else .ok ⟨UdpPacket.srcPort p, UdpPacket.dstPort p, UdpPacket.payload p⟩

/-- `buffer_len()`. -/
def bufferLen (r : UdpRepr) : Nat := 8 + r.payload.length

/-- `UdpRepr::emit` into a zeroed buffer of `buffer_len()` bytes, checksum filled. -/
def emit (r : UdpRepr) (src dst : Ipv4Address) (p : Bytes) : Except Fault Bytes :=
  let length := (8 + r.payload.length) % 65536
  if length < 8 ∨ p.length < length ∨ length - 8 < r.payload.length then .error .panic
  else
    let p := writeU16 (writeU16 (writeU16 p 0 r.srcPort) 2 r.dstPort) 4 length
    .ok (fillChecksum src dst (p.take 8 ++ r.payload ++ p.drop (8 + r.payload.length)))

end UdpRepr

end Rustwall
