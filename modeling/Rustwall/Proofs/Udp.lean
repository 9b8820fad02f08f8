import Rustwall.Pipeline.Ipv4
import Rustwall.Proofs.Fragmenter

/-!
# The UDP path

`process_udp` rebuilds the UDP packet around what the policy left in its buffer. `UdpRepr::emit`
writes the ports, the length field and the payload (`UdpEmitted`), and `fill_checksum` makes the
checksum verify against the pseudo-header (`UdpPacket.verifyChecksum_fillChecksum`), whichever
way the complement comes out. `processUdp_ok` is the spec of `process_udp` on an accepting call;
`processIpv4_udp` follows the rebuilt packet through `fragment_large_udp_packet` to the frames
`process_ipv4` returns.
-/

namespace Rustwall

namespace UdpPacket

theorem len_writeU16 (p : Bytes) (v : Nat) : len (writeU16 p 6 v) = len p :=
  readU16_writeU16_of_disjoint _ 6 _ 4 (by omega)

/-- `fill_checksum` makes `verify_checksum` hold for a packet whose length field covers the
header and lies within the buffer. -/
theorem verifyChecksum_fillChecksum (src dst : Ipv4Address) (p : Bytes) (h₁ : 8 ≤ len p)
    (h₂ : len p ≤ p.length) : verifyChecksum src dst (fillChecksum src dst p) = true := by
  set L := len p
  set p₀ := writeU16 p 6 0
  have hL₀ : len p₀ = L := len_writeU16 p 0
  set ph := pseudoHeader src dst ipProtocolUdp L
  set W := wordSum (p₀.take L)
  have hph : ph < 65536 := propagateCarries_lt _
  have hL : L < 65536 := readU16_lt p 4
  have hW : W ≤ 65535 * L := (wordSum_le _).trans (by simp)
  have hW32 : W + 65535 < 2 ^ 32 := by norm_num; omega
  have hpW := propagateCarries_lt W
  set S := checksumSum src dst p₀
  have hS : S = propagateCarries (ph + propagateCarries W) := by
    simp [S, checksumSum, checksumCombine, checksumData, hL₀, ph, W]
  have hSlt : S < 65536 := hS ▸ propagateCarries_lt _
  have hSm := (propagateCarries_spec (ph + propagateCarries W) (by norm_num; omega)).1
  have hWm := (propagateCarries_spec W (by omega)).1
  set c := if not16 S = 0 then 0xffff else not16 S
  have hc : (c = 65535 ∧ S = 65535) ∨ (c = 65535 - S ∧ S < 65535) := by
    simp only [c, not16, Nat.mod_eq_of_lt hSlt]; split <;> omega
  have hsum : wordSum ((writeU16 p₀ 6 c).take L) = W + c := by
    have hz : readU16 (p₀.take L) 6 = 0 := by
      rw [readU16_take _ _ _ (by omega), readU16_writeU16 _ _ _ (by simp [p₀]; omega)]
    have := wordSum_writeU16 (p₀.take L) 6 c rfl (by simp [p₀]; omega) (by omega)
    rw [take_writeU16]; omega
  obtain ⟨hWcm, hWc0⟩ := propagateCarries_spec (W + c) (by omega)
  have hWclt := propagateCarries_lt (W + c)
  have hpos : propagateCarries (W + c) ≠ 0 := fun h => by have := hWc0.1 h; omega
  show checksumSum src dst (writeU16 p₀ 6 c) == 0xffff
  simp only [checksumSum, checksumCombine, checksumData, len_writeU16, hL₀, hsum, List.sum_cons,
    List.sum_nil, add_zero, beq_iff_eq]
  exact propagateCarries_of_mod_eq_zero _ (by norm_num; omega) (by omega) (by omega)

end UdpPacket

open UdpPacket

/-! ## Emission -/

/-- A UDP packet as `UdpRepr::emit` builds it: the ports, a length field equal to the buffer's
length, and the payload; the checksum is whatever was written last. -/
structure UdpEmitted (srcPort dstPort : Nat) (data q : Bytes) : Prop where
  length_eq : q.length = 8 + data.length
  len_eq : len q = 8 + data.length
  srcPort_eq : UdpPacket.srcPort q = srcPort
  dstPort_eq : UdpPacket.dstPort q = dstPort
  payload_eq : UdpPacket.payload q = data

theorem UdpEmitted.writeChecksum {sp dp : Nat} {data q : Bytes} (he : UdpEmitted sp dp data q)
    (v : Nat) : UdpEmitted sp dp data (writeU16 q 6 v) where
  length_eq := by rw [length_writeU16, he.length_eq]
  len_eq := by rw [len_writeU16, he.len_eq]
  srcPort_eq := by rw [UdpPacket.srcPort, readU16_writeU16_of_disjoint _ 6 _ 0 (by omega), ← he.srcPort_eq]; rfl
  dstPort_eq := by rw [UdpPacket.dstPort, readU16_writeU16_of_disjoint _ 6 _ 2 (by omega), ← he.dstPort_eq]; rfl
  payload_eq := by rw [UdpPacket.payload, len_writeU16, slice_writeU16 _ _ _ _ _ (by omega), ← he.payload_eq]; rfl

theorem UdpEmitted.fillChecksum {sp dp : Nat} {data q : Bytes} (he : UdpEmitted sp dp data q)
    (src dst : Ipv4Address) : UdpEmitted sp dp data (UdpPacket.fillChecksum src dst q) :=
  (he.writeChecksum 0).writeChecksum _

theorem UdpEmitted.verifyChecksum_fillChecksum {sp dp : Nat} {data q : Bytes}
    (he : UdpEmitted sp dp data q) (src dst : Ipv4Address) :
    UdpPacket.verifyChecksum src dst (UdpPacket.fillChecksum src dst q) = true :=
  UdpPacket.verifyChecksum_fillChecksum src dst q (by rw [he.len_eq]; omega)
    (by rw [he.len_eq, he.length_eq])

/-- `UdpRepr::emit` on a zeroed buffer of `buffer_len()` bytes does not panic when the length fits
a `u16`, and writes the ports, the length and the payload. -/
theorem UdpRepr.emit_ok (r : UdpRepr) (src dst : Ipv4Address) (h : 8 + r.payload.length < 65536)
    (hs : r.srcPort < 65536) (hd : r.dstPort < 65536) :
    ∃ q, r.emit src dst (List.replicate r.bufferLen 0) = .ok q ∧
      UdpEmitted r.srcPort r.dstPort r.payload q := by
  set n := r.payload.length
  set h₀ := writeU16 (writeU16 (writeU16 (List.replicate (8 + n) 0) 0 r.srcPort) 2 r.dstPort) 4
    (8 + n)
  have hlen : h₀.length = 8 + n := by simp [h₀]
  have htake : (h₀.take 8).length = 8 := by simp [hlen]
  have hread : ∀ i, i + 1 < 8 → readU16 (h₀.take 8 ++ r.payload) i = readU16 h₀ i := fun i hi => by
    rw [readU16_append_left _ _ _ (by omega), readU16_take _ _ _ hi]
  have hq : UdpEmitted r.srcPort r.dstPort r.payload (h₀.take 8 ++ r.payload) := by
    refine ⟨by simp [htake], ?_, ?_, ?_, ?_⟩
    · show readU16 _ 4 = _
      rw [hread 4 (by omega), readU16_writeU16 _ _ _ (by simp [h₀]; omega)]
      omega
    · show readU16 _ 0 = _
      rw [hread 0 (by omega), readU16_writeU16_of_disjoint _ 4 _ 0 (by omega),
        readU16_writeU16_of_disjoint _ 2 _ 0 (by omega), readU16_writeU16 _ _ _ (by simp; omega)]
      omega
    · show readU16 _ 2 = _
      rw [hread 2 (by omega), readU16_writeU16_of_disjoint _ 4 _ 2 (by omega),
        readU16_writeU16 _ _ _ (by simp; omega)]
      omega
    · show slice _ 8 (readU16 _ 4) = _
      rw [hread 4 (by omega), readU16_writeU16 _ _ _ (by simp [h₀]; omega), Nat.mod_eq_of_lt h]
      simpa only [htake] using slice_append (h₀.take 8) r.payload
  refine ⟨_, ?_, hq.fillChecksum src dst⟩
  simp only [UdpRepr.emit, UdpRepr.bufferLen, Nat.mod_eq_of_lt h]
  simp [h₀, n, List.drop_eq_nil_of_le]

/-! ## `process_udp` -/

theorem UdpPacket.newChecked_emitted {sp dp : Nat} {data q : Bytes} (he : UdpEmitted sp dp data q) :
    UdpPacket.newChecked q = .ok q := by
  simp [UdpPacket.newChecked, UdpPacket.checkLen, he.length_eq, he.len_eq]

/-- A non-negative `i32` is the same `usize`. -/
theorem PolicyResult.i32AsUsize_ret (res : PolicyResult) (h : 0 ≤ res.ret) :
    i32AsUsize res.ret = res.ret.toNat :=
  i32AsUsize_of_nonneg h (by have := res.ret_lt; omega)

/-- On a packet that parses and a policy result `r` within the buffer's capacity that it accepts,
`process_udp` returns the packet rebuilt with the same ports and the first `r` bytes of the
buffer, under a checksum that verifies against the datagram's addresses. -/
theorem processUdp_ok (cfg : Config) (repr : Ipv4Repr) (u : Bytes) (fw : Policy) (ur : UdpRepr)
    (res : PolicyResult) (hu : UdpPacket.newChecked u = .ok u)
    (hur : UdpRepr.parse repr.srcAddr repr.dstAddr u = .ok ur)
    (hres : fw (policyCall cfg repr u) = res)
    (hacc : 0 < res.ret ∧ res.ret.toNat ≤ cfg.maxUdpPacketSize)
    (hcap : res.ret.toNat ≤ vecCapacity cfg.maxUdpPayloadSize (UdpPacket.payload u).length)
    (hfit : 8 + res.ret.toNat < 65536) :
    ∃ U, processUdp cfg repr u fw = .ok U ∧
      UdpEmitted (UdpPacket.srcPort u) (UdpPacket.dstPort u)
        ((List.range res.ret.toNat).map res.buffer) U ∧
      UdpPacket.verifyChecksum repr.srcAddr repr.dstAddr U = true := by
  set r : UdpRepr := ⟨UdpPacket.srcPort u, UdpPacket.dstPort u, (List.range res.ret.toNat).map res.buffer⟩
  obtain ⟨q, hq, he⟩ := r.emit_ok repr.srcAddr repr.dstAddr (by simpa [r] using hfit)
    (readU16_lt u 0) (readU16_lt u 2)
  have he' := he.fillChecksum repr.srcAddr repr.dstAddr
  have hdef : ¬vecCapacity cfg.maxUdpPayloadSize (UdpPacket.payload u).length < i32AsUsize res.ret := by
    rw [res.i32AsUsize_ret hacc.1.le]; omega
  refine ⟨_, ?_, he', he.verifyChecksum_fillChecksum _ _⟩
  simp only [processUdp, hu, hur, liftErr_ok, except_ok_bind, hres, if_neg hdef, if_pos hacc, emitUdp]
  rw [hq, except_ok_bind, UdpPacket.newChecked_emitted he', liftErr_ok]

/-! ## The policy's result -/

/-- A UDP datagram from 10.0.0.1 port 1234 to 10.0.0.2 port 53 with the one-byte payload `h`,
identification 7, in a broadcast Ethernet frame. -/
def sampleUdpFrame : Bytes :=
  let src : Ipv4Address := ⟨10, 0, 0, 1⟩
  let dst : Ipv4Address := ⟨10, 0, 0, 2⟩
  let udp := UdpPacket.fillChecksum src dst [4, 210, 0, 53, 0, 9, 0, 0, 104]
  [255, 255, 255, 255, 255, 255, 2, 0, 0, 0, 0, 1, 8, 0] ++
    Ipv4Packet.fillChecksum ([0x45, 0, 0, 29, 0, 7, 0, 0, 64, 17, 0, 0] ++ src.bytes ++ dst.bytes ++ udp)

/-- The UDP packet of `sampleUdpFrame`. -/
def sampleUdp : Bytes := Ipv4Packet.payload (sampleUdpFrame.drop 14)

/-- `Ipv4Repr::parse` of the datagram of `sampleUdpFrame`. -/
def sampleRepr : Ipv4Repr := ⟨⟨10, 0, 0, 1⟩, ⟨10, 0, 0, 2⟩, 17, 9, 64⟩


/-- `process_udp` on a packet that parses: past the buffer's capacity the call is undefined, and
within it the policy's result decides, and nothing else. -/
theorem processUdp_eq (cfg : Config) (repr : Ipv4Repr) (u : Bytes) (fw : Policy) (ur : UdpRepr)
    (hu : UdpPacket.newChecked u = .ok u) (hur : UdpRepr.parse repr.srcAddr repr.dstAddr u = .ok ur) :
    processUdp cfg repr u fw =
      if vecCapacity cfg.maxUdpPayloadSize (UdpPacket.payload u).length <
          i32AsUsize (fw (policyCall cfg repr u)).ret then .error .undefined
      else if 0 < (fw (policyCall cfg repr u)).ret ∧
          (fw (policyCall cfg repr u)).ret.toNat ≤ cfg.maxUdpPacketSize then
        emitUdp repr.srcAddr repr.dstAddr ⟨UdpPacket.srcPort u, UdpPacket.dstPort u,
          (List.range (fw (policyCall cfg repr u)).ret.toNat).map (fw (policyCall cfg repr u)).buffer⟩
      else .error (.err .dropped) := by
  simp only [processUdp, hu, hur, liftErr_ok, except_ok_bind]

/-- Every `i32` the policy may return, against the buffer it was handed. A negative one reaches
`Vec::from_raw_parts` as a length of at least `2^63`; that, and every other length past the
buffer's capacity, makes the call undefined. Within the capacity, every value outside
`(0, MAX_UDP_PACKET_SIZE]` is dropped, and every value inside is accepted and its first `r` bytes
read back as the new payload. -/
theorem processUdp_policy_result (cfg : Config) (repr : Ipv4Repr) (u : Bytes) (fw : Policy)
    (ur : UdpRepr) (hu : UdpPacket.newChecked u = .ok u)
    (hur : UdpRepr.parse repr.srcAddr repr.dstAddr u = .ok ur) :
    ((fw (policyCall cfg repr u)).ret < 0 → 2 ^ 63 ≤ i32AsUsize (fw (policyCall cfg repr u)).ret) ∧
      (vecCapacity cfg.maxUdpPayloadSize (UdpPacket.payload u).length <
          i32AsUsize (fw (policyCall cfg repr u)).ret →
        processUdp cfg repr u fw = .error .undefined) ∧
      (i32AsUsize (fw (policyCall cfg repr u)).ret ≤
          vecCapacity cfg.maxUdpPayloadSize (UdpPacket.payload u).length →
        ¬(0 < (fw (policyCall cfg repr u)).ret ∧
          (fw (policyCall cfg repr u)).ret.toNat ≤ cfg.maxUdpPacketSize) →
        processUdp cfg repr u fw = .error (.err .dropped)) ∧
      (0 < (fw (policyCall cfg repr u)).ret →
        (fw (policyCall cfg repr u)).ret.toNat ≤
          vecCapacity cfg.maxUdpPayloadSize (UdpPacket.payload u).length →
        (fw (policyCall cfg repr u)).ret.toNat ≤ cfg.maxUdpPacketSize →
        8 + (fw (policyCall cfg repr u)).ret.toNat < 65536 →
        ∃ U, processUdp cfg repr u fw = .ok U ∧
          UdpPacket.payload U = (List.range (fw (policyCall cfg repr u)).ret.toNat).map
            (fw (policyCall cfg repr u)).buffer) := by
  have heq := processUdp_eq cfg repr u fw ur hu hur
  refine ⟨fun hneg => i32AsUsize_of_neg hneg (by have := (fw (policyCall cfg repr u)).ret_ge; omega),
    fun hund => by rw [heq, if_pos hund], fun hcap hrej => by rw [heq, if_neg (not_lt.2 hcap), if_neg hrej],
    fun hpos hcap hmax hfit => ?_⟩
  obtain ⟨U, hU, he, -⟩ := processUdp_ok cfg repr u fw ur _ hu hur rfl ⟨hpos, hmax⟩ hcap hfit
  exact ⟨U, hU, he.payload_eq⟩

/-- A policy that reports 60 payload bytes, more than the 56 of the buffer `process_udp` allocates
in the small build. -/
def overlongPolicy : Policy := fun c => ⟨60, fun i => c.payload.getD i 0, by decide, by decide⟩

/-- A policy that returns `-1`. -/
def negativePolicy : Policy := fun c => ⟨-1, fun i => c.payload.getD i 0, by decide, by decide⟩

/-- In the small build the buffer handed over has capacity 56: `overlongPolicy`'s 60, within
`MAX_UDP_PACKET_SIZE`, and `negativePolicy`'s `-1`, as the `usize` `2^64 - 1`, both reach
`Vec::from_raw_parts` past the capacity. -/
theorem processUdp_policy_result_overlong :
    (vecCapacity Config.small.maxUdpPayloadSize (UdpPacket.payload sampleUdp).length <
        i32AsUsize (overlongPolicy (policyCall Config.small sampleRepr sampleUdp)).ret ∧
      processUdp Config.small sampleRepr sampleUdp overlongPolicy = .error .undefined) ∧
    (vecCapacity Config.small.maxUdpPayloadSize (UdpPacket.payload sampleUdp).length <
        i32AsUsize (negativePolicy (policyCall Config.small sampleRepr sampleUdp)).ret ∧
      processUdp Config.small sampleRepr sampleUdp negativePolicy = .error .undefined) :=
  have hover : vecCapacity Config.small.maxUdpPayloadSize (UdpPacket.payload sampleUdp).length <
      i32AsUsize (overlongPolicy (policyCall Config.small sampleRepr sampleUdp)).ret := by decide
  have hneg : vecCapacity Config.small.maxUdpPayloadSize (UdpPacket.payload sampleUdp).length <
      i32AsUsize (negativePolicy (policyCall Config.small sampleRepr sampleUdp)).ret := by decide
  ⟨⟨hover, (processUdp_policy_result Config.small sampleRepr sampleUdp overlongPolicy ⟨1234, 53, [104]⟩
      rfl rfl).2.1 hover⟩,
    ⟨hneg, (processUdp_policy_result Config.small sampleRepr sampleUdp negativePolicy ⟨1234, 53, [104]⟩
      rfl rfl).2.1 hneg⟩⟩

/-! ## Through `process_ipv4` -/

/-- The loop that appends each packet to the frame's Ethernet header. -/
theorem mapM_frames (pre : Bytes) : ∀ ps : List Bytes,
    (∀ q ∈ ps, ethernetFramePayload ≤ (pre ++ q).length) →
      (ps.mapM fun q => EthernetFrame.newChecked (pre ++ q)) = .ok (ps.map (pre ++ ·))
  | [], _ => rfl
  | q :: ps, h => by
    rw [List.mapM_cons, EthernetFrame.newChecked_eq_ok _ (h q (List.mem_cons_self _ _)), except_ok_bind,
      mapM_frames pre ps fun q hq => h q (List.mem_cons_of_mem _ hq)]
    rfl

theorem processIpv4_udp (cfg : Config) (fw : Policy) (f : Bytes) (s s₁ : Pipeline) (d P : Bytes)
    (repr : Ipv4Repr) (ur : UdpRepr) (res : PolicyResult)
    (hd : (receiveIpv4 cfg f).run s = (.ok d, s₁))
    (hP : (Ipv4Packet.newChecked d >>= shaveCrcFromIpv4) = .ok P)
    (hrepr : Ipv4Repr.parse P = .ok repr) (hudp : repr.protocol = ipProtocolUdp)
    (hu : UdpPacket.newChecked (Ipv4Packet.payload P) = .ok (Ipv4Packet.payload P))
    (hur : UdpRepr.parse repr.srcAddr repr.dstAddr (Ipv4Packet.payload P) = .ok ur)
    (hres : fw (policyCall cfg repr (Ipv4Packet.payload P)) = res)
    (hacc : 0 < res.ret ∧ res.ret.toNat ≤ cfg.maxUdpPacketSize)
    (hcap : res.ret.toNat ≤ vecCapacity cfg.maxUdpPayloadSize
      (UdpPacket.payload (Ipv4Packet.payload P)).length)
    (hfit : 28 + res.ret.toNat ≤ 65535) :
    ∃ ps id U, ((processIpv4 cfg fw f).run s).1 = .ok (ps.map (f.take ethernetFramePayload ++ ·)) ∧
      FragmentsOf cfg.mtuUdp U (Ipv4Packet.srcAddr P) (Ipv4Packet.dstAddr P) id ps ∧
      (Ipv4Packet.ident P ≠ 0 → id = Ipv4Packet.ident P) ∧
      UdpEmitted (UdpPacket.srcPort (Ipv4Packet.payload P)) (UdpPacket.dstPort (Ipv4Packet.payload P))
        ((List.range res.ret.toNat).map res.buffer) U ∧
      UdpPacket.verifyChecksum (Ipv4Packet.srcAddr P) (Ipv4Packet.dstAddr P) U = true := by
  obtain ⟨U, hU, he, hck⟩ := processUdp_ok cfg repr _ fw ur res hu hur hres hacc hcap (by omega)
  have hr := Ipv4Repr.parse_eq_ok hrepr
  obtain ⟨ps, hps, hF, -, -⟩ := fragmentLargeUdpPacket_fragments cfg U (Ipv4Packet.srcAddr P)
    (Ipv4Packet.dstAddr P) (Ipv4Packet.ident P) s₁.seed (by rw [he.length_eq]; simp; omega)
  have hicmp : ¬(ipProtocolUdp = ipProtocolIcmp ∨ ipProtocolUdp = ipProtocolIgmp) := by decide
  have hlen : ∀ q ∈ ps, ethernetFramePayload ≤ (f.take ethernetFramePayload ++ q).length :=
    fun q hq => by
      have := (hF.headerOk q hq).length_eq
      simp only [List.length_append, this, (hF.headerOk q hq).totalLen_eq, ethernetFramePayload]
      omega
  refine ⟨ps, _, U, ?_, hF, fun h0 => if_neg fun h => h0 h.2, he, by rwa [hr] at hck⟩
  have hbuf : (ipv4PacketBuffer cfg fw d s₁.seed).1 = .ok ps := by
    simpa only [ipv4PacketBuffer, hP, hrepr, liftErr_ok, hudp, if_neg hicmp, if_pos, hU] using hps
  rw [processIpv4, run_bind_ok hd, run_processDatagram, hbuf, except_ok_bind, ethPacketBuffer,
    if_neg (by simpa using hF.ne_nil), mapM_frames _ _ hlen, liftErr_ok]

/-- The state after start-up, for one direction. -/
def Pipeline.init (cfg : Config) : Pipeline := ⟨[], FragmentSet.new cfg, 42, 0⟩

theorem processIpv4_udp_sample :
    ∃ ps id U, ((processIpv4 Config.small identityPolicy sampleUdpFrame).run
        (Pipeline.init Config.small)).1 =
        .ok (ps.map (sampleUdpFrame.take ethernetFramePayload ++ ·)) ∧
      FragmentsOf Config.small.mtuUdp U ⟨10, 0, 0, 1⟩ ⟨10, 0, 0, 2⟩ id ps ∧ ((7 : UInt16) ≠ 0 → id = 7) ∧
      UdpEmitted 1234 53 [104] U ∧ UdpPacket.verifyChecksum ⟨10, 0, 0, 1⟩ ⟨10, 0, 0, 2⟩ U = true := by
  have h := processIpv4_udp Config.small identityPolicy sampleUdpFrame (Pipeline.init Config.small)
    (Pipeline.init Config.small) (sampleUdpFrame.drop 14) (sampleUdpFrame.drop 14)
    ⟨⟨10, 0, 0, 1⟩, ⟨10, 0, 0, 2⟩, 17, 9, 64⟩ ⟨1234, 53, [104]⟩ _ rfl rfl rfl rfl rfl rfl rfl
    (by decide) (by decide) (by decide)
  have e₁ : Ipv4Packet.srcAddr (sampleUdpFrame.drop 14) = ⟨10, 0, 0, 1⟩ := rfl
  have e₂ : Ipv4Packet.dstAddr (sampleUdpFrame.drop 14) = ⟨10, 0, 0, 2⟩ := rfl
  have e₃ : Ipv4Packet.ident (sampleUdpFrame.drop 14) = 7 := rfl
  have e₄ : UdpPacket.srcPort (Ipv4Packet.payload (sampleUdpFrame.drop 14)) = 1234 := rfl
  have e₅ : UdpPacket.dstPort (Ipv4Packet.payload (sampleUdpFrame.drop 14)) = 53 := rfl
  have e₆ : (List.range (identityPolicy (policyCall Config.small ⟨⟨10, 0, 0, 1⟩, ⟨10, 0, 0, 2⟩, 17, 9, 64⟩
      (Ipv4Packet.payload (sampleUdpFrame.drop 14)))).ret.toNat).map (identityPolicy (policyCall
      Config.small ⟨⟨10, 0, 0, 1⟩, ⟨10, 0, 0, 2⟩, 17, 9, 64⟩
      (Ipv4Packet.payload (sampleUdpFrame.drop 14)))).buffer = [104] := rfl
  rw [e₁, e₂, e₃, e₄, e₅, e₆] at h
  exact h

/-- Under `overlongPolicy`, the datagram of `sampleUdpFrame` gets a result that `process_udp`
accepts but that exceeds the buffer's capacity: `process_ipv4` returns no frames, since the call
is undefined. -/
theorem processIpv4_udp_overlong :
    (0 < (overlongPolicy (policyCall Config.small sampleRepr sampleUdp)).ret ∧
      (overlongPolicy (policyCall Config.small sampleRepr sampleUdp)).ret.toNat ≤
        Config.small.maxUdpPacketSize) ∧
    vecCapacity Config.small.maxUdpPayloadSize (UdpPacket.payload sampleUdp).length <
      (overlongPolicy (policyCall Config.small sampleRepr sampleUdp)).ret.toNat ∧
    ((processIpv4 Config.small overlongPolicy sampleUdpFrame).run (Pipeline.init Config.small)).1 =
      .error .undefined :=
  ⟨by decide, by decide, rfl⟩

/-! ## The policy's arguments -/

/-- `u32::from_be_bytes` of an address's octets: the address as a number in host order. -/
def u32FromBeBytes (a : Ipv4Address) : UInt32 :=
  UInt32.ofNat (a.bytes.foldl (fun acc x => acc * 256 + x.toNat) 0)

/-- The `transmute` of `process_udp` gives the host-order value exactly on a big-endian target, or
for an address whose octets read the same both ways. -/
theorem u32FromNeBytes_eq_iff (cfg : Config) (a : Ipv4Address) :
    u32FromNeBytes cfg a = u32FromBeBytes a ↔ cfg.nativeLittleEndian = false ∨ a.b0 = a.b3 ∧ a.b1 = a.b2 := by
  cases hle : cfg.nativeLittleEndian
  case false => simp [u32FromNeBytes, u32FromBeBytes, hle]
  case true =>
    have h0 := a.b0.toNat_lt
    have h1 := a.b1.toNat_lt
    have h2 := a.b2.toNat_lt
    have h3 := a.b3.toNat_lt
    have hof : ∀ n, (UInt32.ofNat n).toNat = n % 4294967296 := fun _ => rfl
    simp only [u32FromNeBytes, u32FromBeBytes, hle, if_true, Ipv4Address.bytes, List.reverse_cons,
      List.reverse_nil, List.nil_append, List.cons_append, List.foldl_cons, List.foldl_nil,
      UInt32.ext_iff, hof, UInt8.ext_iff, Bool.true_eq_false, false_or]
    omega

/-- `process_udp` consults the policy once, at the call `policyCall` builds. -/
theorem processUdp_congr {cfg : Config} {repr : Ipv4Repr} {u : Bytes} {fw fw' : Policy}
    (h : fw' (policyCall cfg repr u) = fw (policyCall cfg repr u)) :
    processUdp cfg repr u fw' = processUdp cfg repr u fw := by
  unfold processUdp
  cases hu : UdpPacket.newChecked u with
  | error e => simp only [liftErr_error, except_error_bind]
  | ok u' =>
    obtain rfl := UdpPacket.eq_of_newChecked hu
    simp only [liftErr_ok, except_ok_bind, h]

/-- The policy call of a UDP datagram that `process_ipv4` hands to `process_udp`: its result is all
of the policy the invocation depends on; its addresses are the `transmute`d octets, which equal
the host-order values `u32::from_be_bytes` only on a big-endian target or for byte-palindromic
addresses; its ports are the UDP ports, its payload the UDP payload with its length, in a buffer
whose capacity is at least that length. -/
theorem processIpv4_policy_call (cfg : Config) (fw : Policy) (f : Bytes) (s s₁ : Pipeline) (d P : Bytes)
    (repr : Ipv4Repr) (hd : (receiveIpv4 cfg f).run s = (.ok d, s₁))
    (hP : (Ipv4Packet.newChecked d >>= shaveCrcFromIpv4) = .ok P)
    (hrepr : Ipv4Repr.parse P = .ok repr) (hudp : repr.protocol = ipProtocolUdp) :
    (∀ fw' : Policy, fw' (policyCall cfg repr (Ipv4Packet.payload P)) =
        fw (policyCall cfg repr (Ipv4Packet.payload P)) →
      (processIpv4 cfg fw' f).run s = (processIpv4 cfg fw f).run s) ∧
    ((policyCall cfg repr (Ipv4Packet.payload P)).srcAddr = u32FromBeBytes (Ipv4Packet.srcAddr P) ↔
      cfg.nativeLittleEndian = false ∨
        (Ipv4Packet.srcAddr P).b0 = (Ipv4Packet.srcAddr P).b3 ∧
          (Ipv4Packet.srcAddr P).b1 = (Ipv4Packet.srcAddr P).b2) ∧
    ((policyCall cfg repr (Ipv4Packet.payload P)).dstAddr = u32FromBeBytes (Ipv4Packet.dstAddr P) ↔
      cfg.nativeLittleEndian = false ∨
        (Ipv4Packet.dstAddr P).b0 = (Ipv4Packet.dstAddr P).b3 ∧
          (Ipv4Packet.dstAddr P).b1 = (Ipv4Packet.dstAddr P).b2) ∧
    (policyCall cfg repr (Ipv4Packet.payload P)).srcPort.toNat = UdpPacket.srcPort (Ipv4Packet.payload P) ∧
    (policyCall cfg repr (Ipv4Packet.payload P)).dstPort.toNat = UdpPacket.dstPort (Ipv4Packet.payload P) ∧
    (policyCall cfg repr (Ipv4Packet.payload P)).payload = UdpPacket.payload (Ipv4Packet.payload P) ∧
    (policyCall cfg repr (Ipv4Packet.payload P)).payloadLen.toNat =
      (UdpPacket.payload (Ipv4Packet.payload P)).length ∧
    (UdpPacket.payload (Ipv4Packet.payload P)).length ≤
      vecCapacity cfg.maxUdpPayloadSize (UdpPacket.payload (Ipv4Packet.payload P)).length := by
  have hr := Ipv4Repr.parse_eq_ok hrepr
  have hlen : (UdpPacket.payload (Ipv4Packet.payload P)).length < 65536 := by
    have := readU16_lt P 2
    simp only [UdpPacket.payload, Ipv4Packet.payload, length_slice, Ipv4Packet.totalLen] at *
    omega
  refine ⟨fun fw' h => ?_, ?_, ?_, Nat.mod_eq_of_lt (readU16_lt _ 0), Nat.mod_eq_of_lt (readU16_lt _ 2),
    rfl, Nat.mod_eq_of_lt hlen, by unfold vecCapacity; split <;> omega⟩
  · have hicmp : ¬(ipProtocolUdp = ipProtocolIcmp ∨ ipProtocolUdp = ipProtocolIgmp) := by decide
    have hbuf : ∀ seed, ipv4PacketBuffer cfg fw' d seed = ipv4PacketBuffer cfg fw d seed := fun seed => by
      simp only [ipv4PacketBuffer, hP, hrepr, liftErr_ok, hudp, if_neg hicmp, if_true, processUdp_congr h]
    rw [processIpv4, processIpv4, run_bind_ok hd, run_bind_ok hd, run_processDatagram, run_processDatagram,
      hbuf]
  · rw [hr]; exact u32FromNeBytes_eq_iff cfg _
  · rw [hr]; exact u32FromNeBytes_eq_iff cfg _

/-- On the little-endian small build, the policy sees 10.0.0.1 as `0x0100000a`, not `0x0a000001`. -/
theorem processIpv4_policy_call_sample :
    (policyCall Config.small sampleRepr sampleUdp).srcAddr ≠ u32FromBeBytes ⟨10, 0, 0, 1⟩ ∧
    (∀ fw' : Policy, fw' (policyCall Config.small sampleRepr sampleUdp) =
        identityPolicy (policyCall Config.small sampleRepr sampleUdp) →
      (processIpv4 Config.small fw' sampleUdpFrame).run (Pipeline.init Config.small) =
        (processIpv4 Config.small identityPolicy sampleUdpFrame).run (Pipeline.init Config.small)) ∧
    ((policyCall Config.small sampleRepr sampleUdp).srcAddr = u32FromBeBytes ⟨10, 0, 0, 1⟩ ↔
      Config.small.nativeLittleEndian = false ∨ (10 : UInt8) = 1 ∧ (0 : UInt8) = 0) ∧
    ((policyCall Config.small sampleRepr sampleUdp).dstAddr = u32FromBeBytes ⟨10, 0, 0, 2⟩ ↔
      Config.small.nativeLittleEndian = false ∨ (10 : UInt8) = 2 ∧ (0 : UInt8) = 0) ∧
    (policyCall Config.small sampleRepr sampleUdp).srcPort.toNat = UdpPacket.srcPort sampleUdp ∧
    (policyCall Config.small sampleRepr sampleUdp).dstPort.toNat = UdpPacket.dstPort sampleUdp ∧
    (policyCall Config.small sampleRepr sampleUdp).payload = UdpPacket.payload sampleUdp ∧
    (policyCall Config.small sampleRepr sampleUdp).payloadLen.toNat = (UdpPacket.payload sampleUdp).length ∧
    (UdpPacket.payload sampleUdp).length ≤
      vecCapacity Config.small.maxUdpPayloadSize (UdpPacket.payload sampleUdp).length :=
  ⟨by decide, processIpv4_policy_call Config.small identityPolicy sampleUdpFrame (Pipeline.init Config.small)
    (Pipeline.init Config.small) (sampleUdpFrame.drop 14) (sampleUdpFrame.drop 14) sampleRepr rfl rfl rfl rfl⟩

end Rustwall
