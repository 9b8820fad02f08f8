import Rustwall.Proofs.Firewall
import Rustwall.Proofs.Queue

/-!
# Bytes past the total length

A frame's IPv4 packet may be followed by Ethernet padding, a frame check sequence, or anything
else. The pipeline reads the packet through its header fields, its payload `[header_len,
total_len)` and, in reassembly, its bytes below `total_len`; `shave_crc_from_ipv4` only decides
where the buffer ends. `Trailing p q` says that `q` is `p` with other bytes past `p`'s total
length, which holds the 20-byte fixed header; each stage keeps the relation or gives equal results
(`shaveCrcFromIpv4_trailing`, `Trailing.processIpv4Fragment_eq`, `Trailing.ipv4PacketBuffer_eq`), and
`processEthernet_trailing_bytes` assembles them: two such frames give the same result, fragment set
and counters, depend on the policy through the same call (`invocationCall`), and enqueue the same
frames, except that the ICMP and IGMP pass-through forwards each frame as it came.

The fixed header must lie inside the total length: `new_checked` accepts a header length field
below 5, and then a total length below 20 leaves the protocol, the addresses or the fragment
fields past it (`processEthernet_short_total_len`).
-/

namespace Rustwall

open Ipv4Packet

/-! ## Two buffers of one packet -/

/-- `q` is the IPv4 packet `p` with other bytes past its total length; the total length covers
the fixed header. -/
structure Trailing (p q : Bytes) : Prop where
  twenty_le : 20 ≤ totalLen p
  le_left : totalLen p ≤ p.length
  le_right : totalLen p ≤ q.length
  take_eq : p.take (totalLen p) = q.take (totalLen p)

namespace Trailing

variable {p q r : Bytes}

theorem getD_eq (h : Trailing p q) {i : Nat} (hi : i < totalLen p) : p.getD i 0 = q.getD i 0 := by
  rw [← getD_take p _ i hi, h.take_eq, getD_take q _ i hi]

theorem readU16_eq (h : Trailing p q) {i : Nat} (hi : i + 1 < totalLen p) : readU16 p i = readU16 q i := by
  rw [← readU16_take p _ i hi, h.take_eq, readU16_take q _ i hi]

theorem totalLen_eq (h : Trailing p q) : totalLen q = totalLen p :=
  (h.readU16_eq (i := 2) (by have := h.twenty_le; omega)).symm

theorem twenty_le_right (h : Trailing p q) : 20 ≤ totalLen q := by
  rw [h.totalLen_eq]; exact h.twenty_le

theorem refl (hT : 20 ≤ totalLen p) (hp : totalLen p ≤ p.length) : Trailing p p := ⟨hT, hp, hp, rfl⟩

theorem symm (h : Trailing p q) : Trailing q p := by
  constructor <;> rw [h.totalLen_eq]
  exacts [h.twenty_le, h.le_right, h.le_left, h.take_eq.symm]

theorem trans (h₁ : Trailing p q) (h₂ : Trailing q r) : Trailing p r := by
  have ht := h₁.totalLen_eq
  refine ⟨h₁.twenty_le, h₁.le_left, by have := h₂.le_right; omega, h₁.take_eq.trans ?_⟩
  rw [← ht]; exact h₂.take_eq

/-! ### The header fields -/

theorem getD_header (h : Trailing p q) {i : Nat} (hi : i < 20) : p.getD i 0 = q.getD i 0 :=
  h.getD_eq (by have := h.twenty_le; omega)

theorem readU16_header (h : Trailing p q) {i : Nat} (hi : i + 1 < 20) : readU16 p i = readU16 q i :=
  h.readU16_eq (by have := h.twenty_le; omega)

theorem headerLen_eq (h : Trailing p q) : headerLen q = headerLen p := by
  rw [headerLen, headerLen, h.getD_header (by decide)]

theorem version_eq (h : Trailing p q) : version q = version p := by
  rw [version, version, h.getD_header (by decide)]

theorem moreFrags_eq (h : Trailing p q) : moreFrags q = moreFrags p := by
  rw [moreFrags, moreFrags, h.readU16_header (by decide)]

theorem fragOffset_eq (h : Trailing p q) : fragOffset q = fragOffset p := by
  rw [fragOffset, fragOffset, h.readU16_header (by decide)]

theorem protocol_eq (h : Trailing p q) : protocol q = protocol p := by
  rw [protocol, protocol, h.getD_header (by decide)]

theorem hopLimit_eq (h : Trailing p q) : hopLimit q = hopLimit p := by
  rw [hopLimit, hopLimit, h.getD_header (by decide)]

theorem ident_eq (h : Trailing p q) : ident q = ident p := by
  rw [ident, ident, h.readU16_header (by decide)]

theorem srcAddr_eq (h : Trailing p q) : srcAddr q = srcAddr p := by
  simp only [srcAddr, Ipv4Address.read, h.getD_header (show 12 < 20 by decide),
    h.getD_header (show 12 + 1 < 20 by decide), h.getD_header (show 12 + 2 < 20 by decide),
    h.getD_header (show 12 + 3 < 20 by decide)]

theorem dstAddr_eq (h : Trailing p q) : dstAddr q = dstAddr p := by
  simp only [dstAddr, Ipv4Address.read, h.getD_header (show 16 < 20 by decide),
    h.getD_header (show 16 + 1 < 20 by decide), h.getD_header (show 16 + 2 < 20 by decide),
    h.getD_header (show 16 + 3 < 20 by decide)]

theorem payload_eq (h : Trailing p q) : payload q = payload p := by
  rw [payload, payload, h.headerLen_eq, h.totalLen_eq, slice, slice, h.take_eq]

theorem isUdpFragment_eq (h : Trailing p q) : isUdpFragment q = isUdpFragment p := by
  rw [isUdpFragment, isUdpFragment, h.moreFrags_eq, h.fragOffset_eq, h.protocol_eq]

theorem fragmentKey_eq (h : Trailing p q) : fragmentKey q = fragmentKey p := by
  rw [fragmentKey, fragmentKey, h.ident_eq, h.srcAddr_eq, h.dstAddr_eq]

/-- The header checksum is over the header, which lies inside the total length. -/
theorem verifyChecksum_eq (h : Trailing p q) (hl : headerLen p ≤ totalLen p) :
    verifyChecksum q = verifyChecksum p := by
  have hq : q.take (headerLen p) = p.take (headerLen p) := by
    rw [← Nat.min_eq_left hl, ← List.take_take, ← List.take_take, h.take_eq]
  rw [verifyChecksum, verifyChecksum, h.headerLen_eq, hq]

theorem parse_eq (h : Trailing p q) (hl : headerLen p ≤ totalLen p) :
    Ipv4Repr.parse q = Ipv4Repr.parse p := by
  simp only [Ipv4Repr.parse, h.version_eq, h.verifyChecksum_eq hl, h.payload_eq, h.totalLen_eq,
    h.headerLen_eq, h.srcAddr_eq, h.dstAddr_eq, h.protocol_eq, h.hopLimit_eq]

end Trailing

/-- A packet `new_checked` accepts, with the fixed header inside its total length, is related to
what `shave_crc_from_ipv4` makes of it: itself, or its first `total_len` bytes. -/
theorem shaveCrcFromIpv4_trailing {p : Bytes} (hp : newChecked p = .ok p) (hT : 20 ≤ totalLen p) :
    ∃ p', shaveCrcFromIpv4 p = .ok p' ∧ Trailing p p' := by
  obtain ⟨-, hhl, htl⟩ := (newChecked_ok_iff p).1 hp
  unfold shaveCrcFromIpv4
  split
  case isTrue hshave =>
    have hlen : (payload p).length = totalLen p - headerLen p := by
      rw [payload, length_slice, Nat.min_eq_left htl]
    have ht : p.length - ethCrcLen = totalLen p := by rw [← hshave, hlen]; omega
    have htot : totalLen (p.take (totalLen p)) = totalLen p := readU16_take _ _ _ (by omega)
    have hhl' : headerLen (p.take (totalLen p)) = headerLen p := by
      rw [headerLen, headerLen, getD_take _ _ _ (by omega)]
    refine ⟨p.take (totalLen p), ?_, ⟨hT, htl, by simp; omega, by simp⟩⟩
    rw [ht, (newChecked_ok_iff _).2 ⟨by simp; omega, by rw [htot, hhl']; exact hhl, by simp [htot]; omega⟩]
  case isFalse => exact ⟨p, hp, .refl hT htl⟩

namespace Trailing

variable {p q : Bytes}

theorem length_payload (h : Trailing p q) : (payload p).length = totalLen p - headerLen p := by
  rw [payload, length_slice, Nat.min_eq_left h.le_left]

/-- Both buffers pass the checks of `process_ipv4` and `ipv4_packet_buffer` alike, and what they
continue with are again two buffers of one packet. -/
theorem shaveCrcFromIpv4_eq (h : Trailing p q) (hp : newChecked p = .ok p) (hq : newChecked q = .ok q) :
    ∃ p' q', (newChecked p >>= shaveCrcFromIpv4) = .ok p' ∧ (newChecked q >>= shaveCrcFromIpv4) = .ok q' ∧
      Trailing p' q' ∧ headerLen p' ≤ totalLen p' := by
  obtain ⟨p', hp', hpp'⟩ := shaveCrcFromIpv4_trailing hp h.twenty_le
  obtain ⟨q', hq', hqq'⟩ := shaveCrcFromIpv4_trailing hq h.twenty_le_right
  have hl := ((newChecked_ok_iff p).1 hp).2.1
  refine ⟨p', q', by rw [hp, except_ok_bind, hp'], by rw [hq, except_ok_bind, hq'],
    hpp'.symm.trans (h.trans hqq'), ?_⟩
  rwa [hpp'.headerLen_eq, hpp'.totalLen_eq]

end Trailing

/-! ## Reassembly reads a fragment below its total length -/

/-- `add` copies datagram bytes `[lo, hi)` from fragment bytes below `header_len + payload_len`. -/
theorem FragmentedPacket.add_congr (e : FragmentedPacket) (cap hl off plen : Nat) {d₁ d₂ : Bytes} (ts : Int)
    (h : ∀ i < hl + plen, d₁.getD i 0 = d₂.getD i 0) :
    e.add cap hl off plen d₁ ts = e.add cap hl off plen d₂ ts := by
  unfold FragmentedPacket.add
  dsimp only
  split
  · rfl
  · congr 2
    funext i
    simp only [FragmentedPacket.addRange]
    split_ifs <;> first | rfl | exact h _ (by omega)

namespace Trailing

variable {p q : Bytes}

theorem processEntry_eq (h : Trailing p q) (hl : headerLen p ≤ totalLen p) (cfg : Config) (ts : Int)
    (e : FragmentedPacket) : processEntry cfg q ts e = processEntry cfg p ts e := by
  have hadd : ∀ e' : FragmentedPacket,
      e'.add cfg.maxReassembledFragmentSize (headerLen p) (fragOffset p) (payload p).length q ts =
        e'.add cfg.maxReassembledFragmentSize (headerLen p) (fragOffset p) (payload p).length p ts :=
    fun e' => e'.add_congr _ _ _ _ _ fun i hi => (h.getD_eq (by rw [h.length_payload] at hi; omega)).symm
  simp only [processEntry, prepareEntry, h.fragmentKey_eq, h.moreFrags_eq, h.fragOffset_eq,
    h.totalLen_eq, h.headerLen_eq, h.payload_eq, hadd]

theorem processIpv4Fragment_eq (h : Trailing p q) (hl : headerLen p ≤ totalLen p) (cfg : Config)
    (ts : Int) (t : FragmentSet) : processIpv4Fragment cfg q ts t = processIpv4Fragment cfg p ts t := by
  simp only [processIpv4Fragment, h.fragmentKey_eq, h.processEntry_eq hl]

end Trailing

/-! ## The policy call of an invocation -/

/-- The call `process_udp` makes of the policy for `ip_payload`, once the UDP packet passes
`UdpPacket::new_checked` and `UdpRepr::parse`. -/
def udpCall (cfg : Config) (ipRepr : Ipv4Repr) (ipPayload : Bytes) : Option PolicyCall :=
  match UdpPacket.newChecked ipPayload with
  | .error _ => none
  | .ok udpPacket =>
    match UdpRepr.parse ipRepr.srcAddr ipRepr.dstAddr udpPacket with
    | .error _ => none
    | .ok _ => some (policyCall cfg ipRepr udpPacket)

/-- The call `ipv4_packet_buffer` makes of the policy for the IPv4 bytes `eth_payload`: that of
the payload of a UDP datagram, after the same checks. -/
def datagramCall (cfg : Config) (ethPayload : Bytes) : Option PolicyCall :=
  match newChecked ethPayload >>= shaveCrcFromIpv4 with
  | .error _ => none
  | .ok ipv4Packet =>
    match Ipv4Repr.parse ipv4Packet with
    | .error _ => none
    | .ok ipv4Repr =>
      if ipv4Repr.protocol = ipProtocolIcmp ∨ ipv4Repr.protocol = ipProtocolIgmp then none
      else if ipv4Repr.protocol = ipProtocolUdp then udpCall cfg ipv4Repr (payload ipv4Packet)
      else none

/-- The call an invocation of `process_ethernet` makes of the policy: that of the IPv4 bytes
`process_ipv4` goes on with, for an IPv4 frame that passes the MAC filter. -/
def invocationCall (cfg : Config) (mac : Bytes) (checkMac : Bool) (frame : Bytes) (s : Pipeline) :
    Option PolicyCall :=
  match EthernetFrame.newChecked frame with
  | .error _ => none
  | .ok f =>
    if macPasses mac checkMac f ∧ EthernetFrame.ethertype f = .ipv4 then
      match ((receiveIpv4 cfg f).run s).1 with
      | .ok ipv4 => datagramCall cfg ipv4
      | .error _ => none
    else none

section Congr

variable {cfg : Config} {fw fw' : Policy}

theorem processUdp_congr_of_udpCall {repr : Ipv4Repr} {u : Bytes}
    (h : ∀ c, udpCall cfg repr u = some c → fw' c = fw c) :
    processUdp cfg repr u fw' = processUdp cfg repr u fw := by
  unfold udpCall at h
  cases hu : UdpPacket.newChecked u with
  | error e => simp [processUdp, hu]
  | ok u' =>
    obtain rfl := UdpPacket.eq_of_newChecked hu
    cases hr : UdpRepr.parse repr.srcAddr repr.dstAddr u' with
    | error e => simp [processUdp, hu, hr]
    | ok ur => exact processUdp_congr (h _ (by simp [hu, hr]))

theorem ipv4PacketBuffer_congr {D : Bytes} (seed : UInt16)
    (h : ∀ c, datagramCall cfg D = some c → fw' c = fw c) :
    ipv4PacketBuffer cfg fw' D seed = ipv4PacketBuffer cfg fw D seed := by
  unfold datagramCall at h
  unfold ipv4PacketBuffer
  cases hP : newChecked D >>= shaveCrcFromIpv4 with
  | error e => rfl
  | ok P =>
    rw [hP] at h
    dsimp only [liftErr_ok] at h ⊢
    cases hr : Ipv4Repr.parse P with
    | error e => rfl
    | ok repr =>
      rw [hr] at h
      dsimp only [liftErr_ok] at h ⊢
      split_ifs at h ⊢
      · rfl
      · rw [processUdp_congr_of_udpCall h]
      · rfl

theorem processIpv4_congr {f : Bytes} {s : Pipeline}
    (h : ∀ D, ((receiveIpv4 cfg f).run s).1 = .ok D → ∀ c, datagramCall cfg D = some c → fw' c = fw c) :
    (processIpv4 cfg fw' f).run s = (processIpv4 cfg fw f).run s := by
  rcases hx : (receiveIpv4 cfg f).run s with ⟨_ | D, s₁⟩
  · rw [processIpv4, processIpv4, run_bind_error hx, run_bind_error hx]
  · rw [processIpv4, processIpv4, run_bind_ok hx, run_bind_ok hx, run_processDatagram, run_processDatagram,
      ipv4PacketBuffer_congr _ (h D (by rw [hx]))]

/-- An invocation depends on the policy only through its answer to `invocationCall`. -/
theorem processEthernet_congr {mac : Bytes} {checkMac : Bool} {frame : Bytes} {s : Pipeline}
    (h : ∀ c, invocationCall cfg mac checkMac frame s = some c → fw' c = fw c) :
    (processEthernet cfg mac fw' checkMac frame).run s = (processEthernet cfg mac fw checkMac frame).run s := by
  rw [run_processEthernet, run_processEthernet]
  unfold invocationCall at h
  cases hf : EthernetFrame.newChecked frame with
  | error e => rfl
  | ok f =>
    rw [hf] at h
    dsimp only at h ⊢
    by_cases hm : macPasses mac checkMac f = true
    case neg => simp only [hm, if_false, Bool.false_eq_true]
    case pos =>
      simp only [hm, if_true, true_and] at h ⊢
      cases het : EthernetFrame.ethertype f
      case ipv4 =>
        rw [processIpv4_congr fun D hD c hc => h c (by rw [if_pos het, hD]; exact hc)]
      all_goals rfl

end Congr

namespace Trailing

variable {p q : Bytes}

theorem ipv4PacketBuffer_eq (h : Trailing p q) (hp : newChecked p = .ok p) (hq : newChecked q = .ok q)
    (cfg : Config) (fw : Policy) (seed : UInt16) :
    ipv4PacketBuffer cfg fw q seed = ipv4PacketBuffer cfg fw p seed := by
  obtain ⟨p', q', hp', hq', h', hl⟩ := h.shaveCrcFromIpv4_eq hp hq
  simp only [ipv4PacketBuffer, hp', hq', liftErr_ok, h'.parse_eq hl, h'.payload_eq, h'.srcAddr_eq,
    h'.dstAddr_eq, h'.ident_eq]

theorem datagramCall_eq (h : Trailing p q) (hp : newChecked p = .ok p) (hq : newChecked q = .ok q)
    (cfg : Config) : datagramCall cfg q = datagramCall cfg p := by
  obtain ⟨p', q', hp', hq', h', hl⟩ := h.shaveCrcFromIpv4_eq hp hq
  simp only [datagramCall, hp', hq', h'.parse_eq hl, h'.payload_eq]

end Trailing

/-- `ipv4_packet_buffer` returns no packet only for an ICMP or IGMP datagram. -/
theorem ipv4PacketBuffer_eq_nil {cfg : Config} {fw : Policy} {D : Bytes} {seed : UInt16}
    (h : (ipv4PacketBuffer cfg fw D seed).1 = .ok []) :
    ∃ P repr, (newChecked D >>= shaveCrcFromIpv4) = .ok P ∧ Ipv4Repr.parse P = .ok repr ∧
      (repr.protocol = ipProtocolIcmp ∨ repr.protocol = ipProtocolIgmp) := by
  unfold ipv4PacketBuffer at h
  cases hP : newChecked D >>= shaveCrcFromIpv4 with
  | error e => simp [hP] at h
  | ok P =>
    cases hr : Ipv4Repr.parse P with
    | error e => simp [hP, hr] at h
    | ok repr =>
      simp only [hP, hr, liftErr_ok] at h
      refine ⟨P, repr, rfl, hr, ?_⟩
      split_ifs at h with hicmp hudp
      · exact hicmp
      · cases hU : processUdp cfg repr (payload P) fw with
        | error e => simp [hU] at h
        | ok U => simp only [hU] at h; exact absurd rfl (fragmentLargeUdpPacket_ne_nil h)

/-! ## Two frames of one packet -/

/-- Two buffers `new_checked` accepts that agree below the first one's total length, which holds
the fixed header, are two buffers of one packet. -/
theorem Trailing.of_take_eq {p q : Bytes} (hp : newChecked p = .ok p) (hq : newChecked q = .ok q)
    (hT : 20 ≤ totalLen p) (h : p.take (totalLen p) = q.take (totalLen p)) : Trailing p q := by
  have htot : totalLen q = totalLen p := by
    have := congrArg (readU16 · 2) h
    simp only [readU16_take _ _ 2 (by omega : 2 + 1 < totalLen p)] at this
    exact this.symm
  refine ⟨hT, ((newChecked_ok_iff p).1 hp).2.2, ?_, h⟩
  rw [← htot]; exact ((newChecked_ok_iff q).1 hq).2.2

section Frames

variable {f₁ f₂ : Bytes}

theorem ethernet_newChecked_of_ipv4
    (h : newChecked (f₁.drop ethernetFramePayload) = .ok (f₁.drop ethernetFramePayload)) :
    EthernetFrame.newChecked f₁ = .ok f₁ :=
  EthernetFrame.newChecked_eq_ok f₁ (by
    have := ((newChecked_ok_iff _).1 h).1
    rw [List.length_drop] at this
    omega)

/-- Frames that agree on their first `ETHERNET_FRAME_PAYLOAD + total_len` bytes have one Ethernet
header, and their IPv4 packets are two buffers of one packet. -/
theorem trailing_of_take_eq
    (h₁ : newChecked (f₁.drop ethernetFramePayload) = .ok (f₁.drop ethernetFramePayload))
    (h₂ : newChecked (f₂.drop ethernetFramePayload) = .ok (f₂.drop ethernetFramePayload))
    (hT : 20 ≤ totalLen (f₁.drop ethernetFramePayload))
    (hagree : f₁.take (ethernetFramePayload + totalLen (f₁.drop ethernetFramePayload)) =
      f₂.take (ethernetFramePayload + totalLen (f₁.drop ethernetFramePayload))) :
    f₁.take ethernetFramePayload = f₂.take ethernetFramePayload ∧
      Trailing (f₁.drop ethernetFramePayload) (f₂.drop ethernetFramePayload) := by
  have hhead : ∀ f : Bytes, f.take ethernetFramePayload = (f.take (ethernetFramePayload +
      totalLen (f₁.drop ethernetFramePayload))).take ethernetFramePayload := fun f => by
    rw [List.take_take, Nat.min_eq_left (by omega)]
  have htake : ∀ f : Bytes, (f.drop ethernetFramePayload).take (totalLen (f₁.drop ethernetFramePayload)) =
      (f.take (ethernetFramePayload + totalLen (f₁.drop ethernetFramePayload))).drop ethernetFramePayload :=
    fun f => by rw [List.drop_take, Nat.add_sub_cancel_left]
  exact ⟨by rw [hhead, hagree, ← hhead], .of_take_eq h₁ h₂ hT (by rw [htake, htake, hagree])⟩

theorem dstAddr_ethertype_of_take_eq (h : f₁.take ethernetFramePayload = f₂.take ethernetFramePayload) :
    EthernetFrame.dstAddr f₂ = EthernetFrame.dstAddr f₁ ∧
      EthernetFrame.ethertype f₂ = EthernetFrame.ethertype f₁ := by
  have hd : ∀ f : Bytes, EthernetFrame.dstAddr f = (f.take ethernetFramePayload).take 6 := fun f => by
    rw [EthernetFrame.dstAddr, List.take_take]; rfl
  have ht : ∀ f : Bytes, EthernetFrame.ethertype f =
      EthernetProtocol.ofU16 (readU16 (f.take ethernetFramePayload) 12) := fun f => by
    rw [EthernetFrame.ethertype, readU16_take _ _ _ (by decide)]
  rw [hd, hd, ht, ht, h]
  exact ⟨rfl, rfl⟩

/-- The IPv4 bytes both frames go on with: one datagram completed by reassembly, or each frame's
own IPv4 packet; the fragment set and the counters end alike. -/
theorem receiveIpv4_trailing (cfg : Config) (s : Pipeline)
    (h₁ : newChecked (f₁.drop ethernetFramePayload) = .ok (f₁.drop ethernetFramePayload))
    (h₂ : newChecked (f₂.drop ethernetFramePayload) = .ok (f₂.drop ethernetFramePayload))
    (h : Trailing (f₁.drop ethernetFramePayload) (f₂.drop ethernetFramePayload)) :
    (receiveIpv4 cfg f₂).run s = (receiveIpv4 cfg f₁).run s ∨
      (receiveIpv4 cfg f₁).run s = (.ok (f₁.drop ethernetFramePayload), s) ∧
        (receiveIpv4 cfg f₂).run s = (.ok (f₂.drop ethernetFramePayload), s) := by
  obtain ⟨p₁, p₂, hs₁, hs₂, h', hl⟩ := h.shaveCrcFromIpv4_eq h₁ h₂
  rw [run_receiveIpv4, run_receiveIpv4, ethernet_newChecked_of_ipv4 h₁, ethernet_newChecked_of_ipv4 h₂]
  simp only [except_ok_bind, EthernetFrame.payload, hs₁, hs₂, run_reassemble, h'.isUdpFragment_eq,
    h'.processIpv4Fragment_eq hl]
  split
  · exact .inl rfl
  · exact .inr ⟨rfl, rfl⟩

/-- After equal results of `ipv4_packet_buffer`, the two frames end alike, except that when no
packet was built each frame is returned as it came. -/
theorem processDatagram_trailing (cfg : Config) (fw : Policy) (s : Pipeline) {D₁ D₂ : Bytes}
    (hf₁ : EthernetFrame.newChecked f₁ = .ok f₁) (hf₂ : EthernetFrame.newChecked f₂ = .ok f₂)
    (hhead : f₁.take ethernetFramePayload = f₂.take ethernetFramePayload)
    (hbuf : ipv4PacketBuffer cfg fw D₂ s.seed = ipv4PacketBuffer cfg fw D₁ s.seed) :
    ((processDatagram cfg fw f₂ D₂).run s).2 = ((processDatagram cfg fw f₁ D₁).run s).2 ∧
      (((processDatagram cfg fw f₂ D₂).run s).1 = ((processDatagram cfg fw f₁ D₁).run s).1 ∨
        (ipv4PacketBuffer cfg fw D₁ s.seed).1 = .ok [] ∧
          ((processDatagram cfg fw f₁ D₁).run s).1 = .ok [f₁] ∧
          ((processDatagram cfg fw f₂ D₂).run s).1 = .ok [f₂]) := by
  rw [run_processDatagram, run_processDatagram, hbuf]
  refine ⟨rfl, ?_⟩
  cases (ipv4PacketBuffer cfg fw D₁ s.seed).1 with
  | error e => exact .inl rfl
  | ok ps =>
    cases ps with
    | nil => exact .inr ⟨rfl, by simp [ethPacketBuffer, hf₁], by simp [ethPacketBuffer, hf₂]⟩
    | cons x xs => exact .inl (by simp [ethPacketBuffer, hhead])

/-- `process_ipv4` on the two frames: the same state after, and the same result, except for an
ICMP or IGMP datagram, where each frame is returned as it came. -/
theorem processIpv4_trailing (cfg : Config) (fw : Policy) (s : Pipeline)
    (h₁ : newChecked (f₁.drop ethernetFramePayload) = .ok (f₁.drop ethernetFramePayload))
    (h₂ : newChecked (f₂.drop ethernetFramePayload) = .ok (f₂.drop ethernetFramePayload))
    (hhead : f₁.take ethernetFramePayload = f₂.take ethernetFramePayload)
    (h : Trailing (f₁.drop ethernetFramePayload) (f₂.drop ethernetFramePayload)) :
    ((processIpv4 cfg fw f₂).run s).2 = ((processIpv4 cfg fw f₁).run s).2 ∧
      (((processIpv4 cfg fw f₂).run s).1 = ((processIpv4 cfg fw f₁).run s).1 ∨
        (∃ D P repr, ((receiveIpv4 cfg f₁).run s).1 = .ok D ∧ (newChecked D >>= shaveCrcFromIpv4) = .ok P ∧
          Ipv4Repr.parse P = .ok repr ∧ (repr.protocol = ipProtocolIcmp ∨ repr.protocol = ipProtocolIgmp)) ∧
        ((processIpv4 cfg fw f₁).run s).1 = .ok [f₁] ∧ ((processIpv4 cfg fw f₂).run s).1 = .ok [f₂]) := by
  -- the IPv4 bytes each frame goes on with, which `ipv4_packet_buffer` treats alike
  obtain ⟨D₁, D₂, s₁, hx₁, hx₂, hbuf⟩ | ⟨e, s₁, hx₁, hx₂⟩ :
      (∃ D₁ D₂ s₁, (receiveIpv4 cfg f₁).run s = (.ok D₁, s₁) ∧ (receiveIpv4 cfg f₂).run s = (.ok D₂, s₁) ∧
        ∀ seed, ipv4PacketBuffer cfg fw D₂ seed = ipv4PacketBuffer cfg fw D₁ seed) ∨
      ∃ e s₁, (receiveIpv4 cfg f₁).run s = (.error e, s₁) ∧ (receiveIpv4 cfg f₂).run s = (.error e, s₁) := by
    rcases receiveIpv4_trailing cfg s h₁ h₂ h with he | ⟨e₁, e₂⟩
    · rcases hx : (receiveIpv4 cfg f₁).run s with ⟨_ | D, s₁⟩
      · exact .inr ⟨_, _, rfl, he.trans hx⟩
      · exact .inl ⟨D, D, s₁, rfl, he.trans hx, fun _ => rfl⟩
    · exact .inl ⟨_, _, s, e₁, e₂, h.ipv4PacketBuffer_eq h₁ h₂ cfg fw⟩
  · rw [processIpv4, processIpv4, run_bind_ok hx₁, run_bind_ok hx₂]
    obtain ⟨hst, hres⟩ := processDatagram_trailing cfg fw s₁ (ethernet_newChecked_of_ipv4 h₁)
      (ethernet_newChecked_of_ipv4 h₂) hhead (hbuf s₁.seed)
    refine ⟨hst, hres.imp_right fun ⟨hnil, hr₁, hr₂⟩ => ⟨?_, hr₁, hr₂⟩⟩
    obtain ⟨P, repr, hP, hr, hp⟩ := ipv4PacketBuffer_eq_nil hnil
    exact ⟨D₁, P, repr, by rw [hx₁], hP, hr, hp⟩
  · rw [processIpv4, processIpv4, run_bind_error hx₁, run_bind_error hx₂]
    exact ⟨rfl, .inl rfl⟩

theorem invocationCall_trailing (cfg : Config) (mac : Bytes) (checkMac : Bool) (s : Pipeline)
    (h₁ : newChecked (f₁.drop ethernetFramePayload) = .ok (f₁.drop ethernetFramePayload))
    (h₂ : newChecked (f₂.drop ethernetFramePayload) = .ok (f₂.drop ethernetFramePayload))
    (hhead : f₁.take ethernetFramePayload = f₂.take ethernetFramePayload)
    (h : Trailing (f₁.drop ethernetFramePayload) (f₂.drop ethernetFramePayload)) :
    invocationCall cfg mac checkMac f₂ s = invocationCall cfg mac checkMac f₁ s := by
  obtain ⟨hdst, het⟩ := dstAddr_ethertype_of_take_eq hhead
  simp only [invocationCall, ethernet_newChecked_of_ipv4 h₁, ethernet_newChecked_of_ipv4 h₂, macPasses,
    hdst, het]
  split
  · rcases receiveIpv4_trailing cfg s h₁ h₂ h with he | ⟨e₁, e₂⟩
    · rw [he]
    · rw [e₁, e₂]; exact h.datagramCall_eq h₁ h₂ cfg
  · rfl

end Frames

/-- Trailing bytes past the IPv4 total length, when that length holds the fixed header, change
nothing but the frames the ICMP and IGMP pass-through forwards as they came: two IPv4 frames that
`Ipv4Packet::new_checked` accepts and that agree on their first `ETHERNET_FRAME_PAYLOAD +
total_len` bytes give, from one state and with one policy, the same result, fragment set and
counters, and the same call of the policy, which is all of the policy either run depends on; the
queues end alike, or, for an ICMP or IGMP datagram, with each frame enqueued as it came. -/
theorem processEthernet_trailing_bytes (cfg : Config) (mac : Bytes) (fw : Policy) (checkMac : Bool)
    (f₁ f₂ : Bytes) (s : Pipeline)
    (h₁ : newChecked (f₁.drop ethernetFramePayload) = .ok (f₁.drop ethernetFramePayload))
    (h₂ : newChecked (f₂.drop ethernetFramePayload) = .ok (f₂.drop ethernetFramePayload))
    (heth : EthernetFrame.ethertype f₁ = .ipv4) (hT : 20 ≤ totalLen (f₁.drop ethernetFramePayload))
    (hagree : f₁.take (ethernetFramePayload + totalLen (f₁.drop ethernetFramePayload)) =
      f₂.take (ethernetFramePayload + totalLen (f₁.drop ethernetFramePayload))) :
    ((processEthernet cfg mac fw checkMac f₂).run s).1 = ((processEthernet cfg mac fw checkMac f₁).run s).1 ∧
      ((processEthernet cfg mac fw checkMac f₂).run s).2.fragments =
        ((processEthernet cfg mac fw checkMac f₁).run s).2.fragments ∧
      ((processEthernet cfg mac fw checkMac f₂).run s).2.seed =
        ((processEthernet cfg mac fw checkMac f₁).run s).2.seed ∧
      ((processEthernet cfg mac fw checkMac f₂).run s).2.ms = ((processEthernet cfg mac fw checkMac f₁).run s).2.ms ∧
      invocationCall cfg mac checkMac f₂ s = invocationCall cfg mac checkMac f₁ s ∧
      (∀ fw' : Policy, (∀ c, invocationCall cfg mac checkMac f₁ s = some c → fw' c = fw c) →
        (processEthernet cfg mac fw' checkMac f₁).run s = (processEthernet cfg mac fw checkMac f₁).run s) ∧
      (((processEthernet cfg mac fw checkMac f₂).run s).2.queue =
          ((processEthernet cfg mac fw checkMac f₁).run s).2.queue ∨
        (∃ D P repr, ((receiveIpv4 cfg f₁).run s).1 = .ok D ∧ (newChecked D >>= shaveCrcFromIpv4) = .ok P ∧
          Ipv4Repr.parse P = .ok repr ∧ (repr.protocol = ipProtocolIcmp ∨ repr.protocol = ipProtocolIgmp)) ∧
        ((processEthernet cfg mac fw checkMac f₁).run s).2.queue = enqueue cfg.maxEnqueuedPackets [f₁] s.queue ∧
        ((processEthernet cfg mac fw checkMac f₂).run s).2.queue = enqueue cfg.maxEnqueuedPackets [f₂] s.queue) := by
  obtain ⟨hhead, h⟩ := trailing_of_take_eq h₁ h₂ hT hagree
  obtain ⟨hdst, het⟩ := dstAddr_ethertype_of_take_eq hhead
  have hmac : macPasses mac checkMac f₂ = macPasses mac checkMac f₁ := by simp only [macPasses, hdst]
  -- the two runs: equal, or the pass-through with one state but the queue
  have hrun : (processEthernet cfg mac fw checkMac f₂).run s = (processEthernet cfg mac fw checkMac f₁).run s ∨
      (∃ D P repr, ((receiveIpv4 cfg f₁).run s).1 = .ok D ∧ (newChecked D >>= shaveCrcFromIpv4) = .ok P ∧
        Ipv4Repr.parse P = .ok repr ∧ (repr.protocol = ipProtocolIcmp ∨ repr.protocol = ipProtocolIgmp)) ∧
      ∃ s₁ : Pipeline,
        (processEthernet cfg mac fw checkMac f₁).run s =
          (.ok (), { s₁ with queue := enqueue cfg.maxEnqueuedPackets [f₁] s.queue }) ∧
        (processEthernet cfg mac fw checkMac f₂).run s =
          (.ok (), { s₁ with queue := enqueue cfg.maxEnqueuedPackets [f₂] s.queue }) := by
    rw [run_processEthernet, run_processEthernet, ethernet_newChecked_of_ipv4 h₁, ethernet_newChecked_of_ipv4 h₂]
    dsimp only
    rw [hmac, het, heth]
    split
    case isFalse => exact .inl rfl
    case isTrue =>
      dsimp only
      obtain ⟨hst, hres⟩ := processIpv4_trailing cfg fw s h₁ h₂ hhead h
      have hq := processIpv4_queue cfg fw f₁ s
      rcases hx₁ : (processIpv4 cfg fw f₁).run s with ⟨r₁, s₁⟩
      rcases hx₂ : (processIpv4 cfg fw f₂).run s with ⟨r₂, s₂⟩
      simp only [hx₁, hx₂] at hst hres hq
      subst hst
      rcases hres with rfl | ⟨hp, rfl, rfl⟩
      · exact .inl rfl
      · exact .inr ⟨hp, s₂, by dsimp only; rw [hq], by dsimp only; rw [hq]⟩
  have hcall := invocationCall_trailing cfg mac checkMac s h₁ h₂ hhead h
  rcases hrun with he | ⟨hp, s₁, e₁, e₂⟩
  · rw [he]
    exact ⟨rfl, rfl, rfl, rfl, hcall, fun fw' hc => processEthernet_congr hc, .inl rfl⟩
  · rw [e₁, e₂]
    exact ⟨rfl, rfl, rfl, rfl, hcall, fun fw' hc => (processEthernet_congr hc).trans e₁, .inr ⟨hp, rfl, rfl⟩⟩

/-- `sampleUdpFrame` followed by a four-byte frame check sequence, which `shave_crc_from_ipv4`
takes off. -/
def paddedUdpFrame : Bytes := sampleUdpFrame ++ [0xde, 0xad, 0xbe, 0xef]

theorem processEthernet_trailing_bytes_padded :
    ((processEthernet Config.small clientMac identityPolicy false paddedUdpFrame).run
        (Pipeline.init Config.small)).1 =
        ((processEthernet Config.small clientMac identityPolicy false sampleUdpFrame).run
          (Pipeline.init Config.small)).1 ∧
      ((processEthernet Config.small clientMac identityPolicy false paddedUdpFrame).run
          (Pipeline.init Config.small)).2.fragments =
        ((processEthernet Config.small clientMac identityPolicy false sampleUdpFrame).run
          (Pipeline.init Config.small)).2.fragments ∧
      ((processEthernet Config.small clientMac identityPolicy false paddedUdpFrame).run
          (Pipeline.init Config.small)).2.seed =
        ((processEthernet Config.small clientMac identityPolicy false sampleUdpFrame).run
          (Pipeline.init Config.small)).2.seed ∧
      ((processEthernet Config.small clientMac identityPolicy false paddedUdpFrame).run
          (Pipeline.init Config.small)).2.ms =
        ((processEthernet Config.small clientMac identityPolicy false sampleUdpFrame).run
          (Pipeline.init Config.small)).2.ms ∧
      invocationCall Config.small clientMac false paddedUdpFrame (Pipeline.init Config.small) =
        invocationCall Config.small clientMac false sampleUdpFrame (Pipeline.init Config.small) ∧
      (∀ fw' : Policy, (∀ c, invocationCall Config.small clientMac false sampleUdpFrame
          (Pipeline.init Config.small) = some c → fw' c = identityPolicy c) →
        (processEthernet Config.small clientMac fw' false sampleUdpFrame).run (Pipeline.init Config.small) =
          (processEthernet Config.small clientMac identityPolicy false sampleUdpFrame).run
            (Pipeline.init Config.small)) ∧
      (((processEthernet Config.small clientMac identityPolicy false paddedUdpFrame).run
          (Pipeline.init Config.small)).2.queue =
          ((processEthernet Config.small clientMac identityPolicy false sampleUdpFrame).run
            (Pipeline.init Config.small)).2.queue ∨
        (∃ D P repr, ((receiveIpv4 Config.small sampleUdpFrame).run (Pipeline.init Config.small)).1 = .ok D ∧
          (newChecked D >>= shaveCrcFromIpv4) = .ok P ∧ Ipv4Repr.parse P = .ok repr ∧
          (repr.protocol = ipProtocolIcmp ∨ repr.protocol = ipProtocolIgmp)) ∧
        ((processEthernet Config.small clientMac identityPolicy false sampleUdpFrame).run
          (Pipeline.init Config.small)).2.queue =
            enqueue Config.small.maxEnqueuedPackets [sampleUdpFrame] (Pipeline.init Config.small).queue ∧
        ((processEthernet Config.small clientMac identityPolicy false paddedUdpFrame).run
          (Pipeline.init Config.small)).2.queue =
            enqueue Config.small.maxEnqueuedPackets [paddedUdpFrame] (Pipeline.init Config.small).queue) :=
  processEthernet_trailing_bytes Config.small clientMac identityPolicy false sampleUdpFrame paddedUdpFrame
    (Pipeline.init Config.small) rfl rfl rfl (by decide) rfl

/-- `zeroIhlFirst` with ICMP in its protocol byte, which lies past its total length of 8. -/
def zeroIhlIcmp : Bytes := [0x40, 0, 0, 8, 0, 7, 0x20, 0, 64, 1, 0, 0, 10, 0, 0, 1, 10, 0, 0, 2]

/-- A header length field of 0 lets a total length of 8 pass `Ipv4Packet::new_checked`, and the
protocol byte then lies past it: of two frames that differ only there, the first is a UDP fragment
that starts an entry, the second an ICMP packet whose empty header fails the checksum. -/
theorem processEthernet_short_total_len :
    newChecked ((broadcastHeader ++ zeroIhlFirst).drop ethernetFramePayload) = .ok zeroIhlFirst ∧
      newChecked ((broadcastHeader ++ zeroIhlIcmp).drop ethernetFramePayload) = .ok zeroIhlIcmp ∧
      EthernetFrame.ethertype (broadcastHeader ++ zeroIhlFirst) = .ipv4 ∧ totalLen zeroIhlFirst = 8 ∧
      (broadcastHeader ++ zeroIhlFirst).take (ethernetFramePayload + 8) =
        (broadcastHeader ++ zeroIhlIcmp).take (ethernetFramePayload + 8) ∧
      ((processEthernet Config.small clientMac dropPolicy false (broadcastHeader ++ zeroIhlFirst)).run
        (Pipeline.init Config.small)).1 = .error (.err .fragmented) ∧
      ((processEthernet Config.small clientMac dropPolicy false (broadcastHeader ++ zeroIhlIcmp)).run
        (Pipeline.init Config.small)).1 = .error (.err .checksum) ∧
      (((processEthernet Config.small clientMac dropPolicy false (broadcastHeader ++ zeroIhlFirst)).run
        (Pipeline.init Config.small)).2.fragments.getD 0 .new).started = true ∧
      (((processEthernet Config.small clientMac dropPolicy false (broadcastHeader ++ zeroIhlIcmp)).run
        (Pipeline.init Config.small)).2.fragments.getD 0 .new).started = false :=
  ⟨rfl, rfl, rfl, rfl, rfl, rfl, rfl, rfl, rfl⟩

end Rustwall
