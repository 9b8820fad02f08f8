import Rustwall.Wire.Ethernet

/-!
# IPv4 packets

smoltcp's `Ipv4Packet` is a view over a byte buffer: each accessor reads a fixed field of the
header, each setter writes it back. `new_checked` validates lengths only (`checkLen`): a buffer of
at least 20 bytes whose header length and total length fit. The header checksum is checked by
`Ipv4Repr::parse`, not by `new_checked`, and the header length is not required to be 20 or more.

`Ipv4Repr::parse` here is the one of the fragmentation-enabled build the firewall links: it does
not reject fragments, so a reassembled datagram, whose header is the first fragment's with the
more-fragments flag still set, can be parsed.
-/

namespace Rustwall

/-- smoltcp's `Ipv4Address`: four octets. -/
structure Ipv4Address where
  b0 : UInt8
  b1 : UInt8
  b2 : UInt8
  b3 : UInt8
  deriving DecidableEq, Repr

/-- `as_bytes()`. -/
def Ipv4Address.bytes (a : Ipv4Address) : Bytes := [a.b0, a.b1, a.b2, a.b3]

/-- The address stored at bytes `i` to `i + 3`. -/
def Ipv4Address.read (p : Bytes) (i : Nat) : Ipv4Address :=
  ⟨p.getD i 0, p.getD (i + 1) 0, p.getD (i + 2) 0, p.getD (i + 3) 0⟩

/-- smoltcp's `IpProtocol` numbers the pipeline dispatches on. -/
def ipProtocolIcmp : UInt8 := 0x01
/-- `IpProtocol::Igmp`. -/
def ipProtocolIgmp : UInt8 := 0x02
/-- `IpProtocol::Udp`. -/
def ipProtocolUdp : UInt8 := 0x11

/-- The bit `k` of `x` set to `b`, as `x | (1 << k)` or `x & !(1 << k)` do. -/
def withBit (x k : Nat) (b : Bool) : Nat :=
  x - x / 2 ^ k % 2 * 2 ^ k + if b then 2 ^ k else 0

/-- Setting bit `k` replaces it and keeps the bits above and below. -/
theorem withBit_split (k a c r : Nat) (b : Bool) (hc : c < 2) (hr : r < 2 ^ k) :
    withBit (2 ^ (k + 1) * a + 2 ^ k * c + r) k b = 2 ^ (k + 1) * a + (if b then 2 ^ k else 0) + r := by
  have hx : 2 ^ (k + 1) * a + 2 ^ k * c + r = r + 2 ^ k * (2 * a + c) := by rw [pow_succ]; ring
  have hd : (r + 2 ^ k * (2 * a + c)) / 2 ^ k % 2 = c := by
    rw [Nat.add_mul_div_left _ _ (by positivity), Nat.div_eq_of_lt hr]; omega
  rw [withBit, hx, hd, Nat.mul_add, ← Nat.add_assoc, Nat.mul_comm c, Nat.add_sub_cancel, pow_succ]
  ring

namespace Ipv4Packet

/-- `version()`. -/
def version (p : Bytes) : Nat := (p.getD 0 0).toNat / 16

/-- `header_len()`: the IHL field times four. -/
def headerLen (p : Bytes) : Nat := (p.getD 0 0).toNat % 16 * 4

/-- `total_len()`. -/
def totalLen (p : Bytes) : Nat := readU16 p 2

/-- `ident()`. -/
def ident (p : Bytes) : UInt16 := UInt16.ofNat (readU16 p 4)

/-- `dont_frag()`. -/
def dontFrag (p : Bytes) : Bool := readU16 p 6 / 0x4000 % 2 == 1

/-- `more_frags()`. -/
def moreFrags (p : Bytes) : Bool := readU16 p 6 / 0x2000 % 2 == 1

/-- `frag_offset()`: the flags-and-offset word shifted left by three, as a `u16`. -/
def fragOffset (p : Bytes) : Nat := readU16 p 6 * 8 % 65536

/-- `hop_limit()`. -/
def hopLimit (p : Bytes) : Nat := (p.getD 8 0).toNat

/-- `protocol()`. -/
def protocol (p : Bytes) : UInt8 := p.getD 9 0

/-- `checksum()`. -/
def checksum (p : Bytes) : Nat := readU16 p 10

/-- `src_addr()`. -/
def srcAddr (p : Bytes) : Ipv4Address := Ipv4Address.read p 12

/-- `dst_addr()`. -/
def dstAddr (p : Bytes) : Ipv4Address := Ipv4Address.read p 16

/-- `payload()`: the bytes between the header and the total length. -/
def payload (p : Bytes) : Bytes := slice p (headerLen p) (totalLen p)

/-- `check_len`. -/
def checkLen (p : Bytes) : Except Error Unit :=
  if p.length < 20 then .error .truncated
  else if p.length < headerLen p then .error .truncated
  else if totalLen p < headerLen p then .error .malformed
  else if p.length < totalLen p then .error .truncated
  else .ok ()

/-- `Ipv4Packet::new_checked`. -/
def newChecked (p : Bytes) : Except Error Bytes := checkLen p >>= fun _ => .ok p

theorem eq_of_newChecked {p q : Bytes} (h : newChecked p = .ok q) : q = p := by
  unfold newChecked at h
  cases hc : checkLen p <;> rw [hc] at h <;> cases h
  rfl

/-- `set_total_len()`. -/
def setTotalLen (p : Bytes) (v : Nat) : Bytes := writeU16 p 2 v

/-- `set_ident()`. -/
def setIdent (p : Bytes) (v : UInt16) : Bytes := writeU16 p 4 v.toNat

/-- `set_frag_offset()`: `(raw & 0xe000) | (value >> 3)`. -/
def setFragOffset (p : Bytes) (v : Nat) : Bytes :=
  writeU16 p 6 (readU16 p 6 / 0x2000 * 0x2000 + v % 65536 / 8)

/-- `set_more_frags()`. -/
def setMoreFrags (p : Bytes) (b : Bool) : Bytes := writeU16 p 6 (withBit (readU16 p 6) 13 b)

/-- `set_dont_frag()`. -/
def setDontFrag (p : Bytes) (b : Bool) : Bytes := writeU16 p 6 (withBit (readU16 p 6) 14 b)

/-- `set_checksum()`. -/
def setChecksum (p : Bytes) (v : Nat) : Bytes := writeU16 p 10 v

/-- `fill_checksum()`: zero the field, then store the complement of the header's sum. -/
def fillChecksum (p : Bytes) : Bytes :=
  let p₀ := setChecksum p 0
  setChecksum p₀ (not16 (checksumData (p₀.take (headerLen p₀))))

/-- `verify_checksum()`. -/
def verifyChecksum (p : Bytes) : Bool := checksumData (p.take (headerLen p)) == 0xffff

/-! ### Fields after a write

A setter writes one 16-bit word; every field stored elsewhere reads the same afterwards. -/

theorem headerLen_writeU16 (p : Bytes) (i v : Nat) (h : 0 < i) :
    headerLen (writeU16 p i v) = headerLen p := by
  simp only [headerLen, getD_writeU16_of_ne p i v 0 (by omega) (by omega)]

theorem version_writeU16 (p : Bytes) (i v : Nat) (h : 0 < i) :
    version (writeU16 p i v) = version p := by
  simp only [version, getD_writeU16_of_ne p i v 0 (by omega) (by omega)]

theorem totalLen_writeU16 (p : Bytes) (i v : Nat) (h : 3 < i) :
    totalLen (writeU16 p i v) = totalLen p :=
  readU16_writeU16_of_disjoint _ _ _ _ (by omega)

theorem ident_writeU16 (p : Bytes) (i v : Nat) (h : i + 1 < 4 ∨ 5 < i) :
    ident (writeU16 p i v) = ident p := by
  rw [ident, readU16_writeU16_of_disjoint _ _ _ _ (by omega), ident]

theorem hopLimit_writeU16 (p : Bytes) (i v : Nat) (h : i + 1 < 8 ∨ 8 < i) :
    hopLimit (writeU16 p i v) = hopLimit p := by
  simp only [hopLimit, getD_writeU16_of_ne p i v 8 (by omega) (by omega)]

theorem protocol_writeU16 (p : Bytes) (i v : Nat) (h : i + 1 < 9 ∨ 9 < i) :
    protocol (writeU16 p i v) = protocol p := by
  simp only [protocol, getD_writeU16_of_ne p i v 9 (by omega) (by omega)]

theorem srcAddr_writeU16 (p : Bytes) (i v : Nat) (h : i + 1 < 12) :
    srcAddr (writeU16 p i v) = srcAddr p := by
  simp only [srcAddr, Ipv4Address.read, getD_writeU16_of_ne p i v 12 (by omega) (by omega),
    getD_writeU16_of_ne p i v (12 + 1) (by omega) (by omega),
    getD_writeU16_of_ne p i v (12 + 2) (by omega) (by omega),
    getD_writeU16_of_ne p i v (12 + 3) (by omega) (by omega)]

theorem dstAddr_writeU16 (p : Bytes) (i v : Nat) (h : i + 1 < 16) :
    dstAddr (writeU16 p i v) = dstAddr p := by
  simp only [dstAddr, Ipv4Address.read, getD_writeU16_of_ne p i v 16 (by omega) (by omega),
    getD_writeU16_of_ne p i v (16 + 1) (by omega) (by omega),
    getD_writeU16_of_ne p i v (16 + 2) (by omega) (by omega),
    getD_writeU16_of_ne p i v (16 + 3) (by omega) (by omega)]

theorem getD_fillChecksum (p : Bytes) (j : Nat) (h : j ≠ 10 ∧ j ≠ 11) :
    (fillChecksum p).getD j 0 = p.getD j 0 := by
  simp only [fillChecksum, setChecksum, getD_writeU16_of_ne _ 10 _ j h.1 h.2]

theorem readU16_fillChecksum (p : Bytes) (j : Nat) (h : j + 1 < 10 ∨ 11 < j) :
    readU16 (fillChecksum p) j = readU16 p j := by
  simp only [fillChecksum, setChecksum, readU16_writeU16_of_disjoint _ 10 _ j h]

theorem length_fillChecksum (p : Bytes) : (fillChecksum p).length = p.length := by
  simp [fillChecksum, setChecksum]

/-- What `new_checked` accepts: at least 20 bytes, and a total length between the header length
and the buffer's length. -/
theorem newChecked_ok_iff (p : Bytes) :
    newChecked p = .ok p ↔ 20 ≤ p.length ∧ headerLen p ≤ totalLen p ∧ totalLen p ≤ p.length := by
  unfold newChecked checkLen
  split_ifs <;> simp <;> omega

/-- `fill_checksum` makes `verify_checksum` hold, for any header of at least 12 bytes. -/
theorem verifyChecksum_fillChecksum (p : Bytes) (h₁ : 12 ≤ headerLen p) (h₂ : headerLen p ≤ p.length) :
    verifyChecksum (fillChecksum p) = true := by
  have h60 : headerLen p ≤ 60 := by have := (p.getD 0 0).toNat_lt; unfold headerLen; omega
  set hl := headerLen p
  set p₀ := setChecksum p 0 with hp₀
  have hl₀ : headerLen p₀ = hl := headerLen_writeU16 _ _ _ (by omega)
  have hlen : 10 + 1 < (p₀.take hl).length := by simp [p₀, setChecksum]; omega
  have hz : readU16 (p₀.take hl) 10 = 0 := by
    rw [readU16_take _ _ _ (by omega), hp₀, setChecksum, readU16_writeU16 _ _ _ (by omega)]
  have hc : not16 (checksumData (p₀.take hl)) < 65536 := by unfold not16; omega
  have hsum := wordSum_writeU16 (p₀.take hl) 10 _ rfl hlen hc
  have hW := wordSum_le (p₀.take hl)
  have hfill : fillChecksum p = setChecksum p₀ (not16 (checksumData (p₀.take hl))) := by
    rw [fillChecksum, hl₀]
  have hlf : headerLen (fillChecksum p) = hl := by
    rw [hfill, setChecksum, headerLen_writeU16 _ _ _ (by omega), hl₀]
  rw [verifyChecksum, hlf, hfill, setChecksum, take_writeU16, beq_iff_eq]
  show propagateCarries (wordSum (writeU16 (p₀.take hl) 10 (not16 (checksumData (p₀.take hl))))) = _
  rw [show wordSum (writeU16 (p₀.take hl) 10 (not16 (checksumData (p₀.take hl)))) =
    wordSum (p₀.take hl) + not16 (checksumData (p₀.take hl)) by omega]
  exact propagateCarries_fill (wordSum (p₀.take hl)) (by simp only [List.length_take] at hW; omega)

end Ipv4Packet

open Ipv4Packet

/-- smoltcp's `Ipv4Repr`. -/
structure Ipv4Repr where
  srcAddr : Ipv4Address
  dstAddr : Ipv4Address
  protocol : UInt8
  payloadLen : Nat
  hopLimit : Nat
  deriving DecidableEq, Repr

namespace Ipv4Repr

/-- `Ipv4Repr::parse` with the default checksum capabilities. Stock smoltcp 0.5 also returns
`Err(Fragmented)` when `more_frags() || frag_offset() != 0`; that check is left out, as in the
fragmentation-enabled fork the firewall links, and its absence is what lets a reassembled datagram,
whose header keeps the first fragment's MF flag, through the reparse (spec §4.5, and §8
scenario 6). -/
def parse (p : Bytes) : Except Error Ipv4Repr :=
  if version p ≠ 4 then .error .malformed
  else if !verifyChecksum p then .error .checksum
  else if (payload p).length < totalLen p - headerLen p then .error .truncated
  else .ok ⟨Ipv4Packet.srcAddr p, Ipv4Packet.dstAddr p, Ipv4Packet.protocol p,
    totalLen p - headerLen p, Ipv4Packet.hopLimit p⟩

/-- What a successful parse reads off the packet. -/
theorem parse_eq_ok {p : Bytes} {r : Ipv4Repr} (h : parse p = .ok r) :
    r = ⟨Ipv4Packet.srcAddr p, Ipv4Packet.dstAddr p, Ipv4Packet.protocol p,
      totalLen p - headerLen p, Ipv4Packet.hopLimit p⟩ := by
  unfold parse at h
  split_ifs at h
  exact (Except.ok.inj h).symm

/-- `buffer_len()`: the emitted header has no options. -/
def bufferLen (_ : Ipv4Repr) : Nat := 20

/-- The 20 header bytes `Ipv4Repr::emit` writes before the checksum: version 4 and header
length 20, DSCP and ECN 0, total length `header_len as u16 + payload_len as u16`, identification
0, DF set with MF clear and offset 0, the hop limit, the protocol and the two addresses. -/
def header (r : Ipv4Repr) : Bytes :=
  let total := (20 + r.payloadLen % 65536) % 65536
  [0x45, 0, UInt8.ofNat (total / 256), UInt8.ofNat total, 0, 0, 0x40, 0,
    UInt8.ofNat r.hopLimit, r.protocol, 0, 0] ++ r.srcAddr.bytes ++ r.dstAddr.bytes

/-- `Ipv4Repr::emit` into a buffer of at least 20 bytes. Every field of the 20-byte header is
set, so emitting is writing `header` over the first 20 bytes and filling the checksum. -/
def emit (r : Ipv4Repr) (p : Bytes) : Bytes := fillChecksum (r.header ++ p.drop 20)

end Ipv4Repr

end Rustwall
