import Rustwall.Proofs.Firewall
import Rustwall.Proofs.Queue

/-!
# The pipeline on its own output

Under the identity policy, the frames the firewall emits for a UDP datagram come out again when
they are fed back in, in any order: the fragments are reassembled into a datagram carrying the
same UDP packet under the first fragment's header, `process_udp` rebuilds that packet unchanged,
and the fragmenter cuts it the same way under the same identification.

* `processUdp_identityPolicy`: the identity policy gives back a packet `process_udp` built;
  `UdpDatagram.ipv4PacketBuffer_eq`: a datagram that carries it is fragmented as it was.
* `FragmentsOf.tiling`: the fragments of a packet tile the datagram of the first fragment's header
  and the packet (`Tiling`), and `HeaderOk.udpDatagram_finalize`: that datagram, finalized, is
  the one reassembly returns.
* `Holds`, `processEntry_pending` and `processEntry_done`: while the fragments arrive, the entry
  holds exactly those that arrived, each byte in its place, and the last one completes it, in
  whatever order they come.
* `FragmentSet.Clean` and `firewall_run_clean`: unstarted entries carry nothing, in every state a
  run reaches; `Feeding` and `Feed.run`: the table and the firewall over the whole feeding.
* The round trip itself, from these, when both queues have room for all the frames.

With more fragments than the queue has room for, the ones dropped at the tail never arrive and
nothing completes: the last section runs the small build on such a frame.
-/

namespace Rustwall

open Ipv4Packet

/-! ## The UDP packet -/

/-- What a packet `process_udp` returned is: the policy accepted the call with a length within
the buffer's capacity, and the packet is the one `emit_udp` built around the bytes it left, with
the ports of the packet it was given. -/
theorem processUdp_emitted {cfg : Config} {repr₀ : Ipv4Repr} {u₀ U : Bytes} {fw : Policy}
    (h : processUdp cfg repr₀ u₀ fw = .ok U) (hfit : 8 + (fw (policyCall cfg repr₀ u₀)).ret.toNat < 65536) :
    ∃ ur, UdpPacket.newChecked u₀ = .ok u₀ ∧ UdpRepr.parse repr₀.srcAddr repr₀.dstAddr u₀ = .ok ur ∧
      (0 < (fw (policyCall cfg repr₀ u₀)).ret ∧
        (fw (policyCall cfg repr₀ u₀)).ret.toNat ≤ cfg.maxUdpPacketSize) ∧
      (fw (policyCall cfg repr₀ u₀)).ret.toNat ≤
        vecCapacity cfg.maxUdpPayloadSize (UdpPacket.payload u₀).length ∧
      emitUdp repr₀.srcAddr repr₀.dstAddr ⟨UdpPacket.srcPort u₀, UdpPacket.dstPort u₀,
        (List.range (fw (policyCall cfg repr₀ u₀)).ret.toNat).map (fw (policyCall cfg repr₀ u₀)).buffer⟩ =
        .ok U ∧
      UdpEmitted (UdpPacket.srcPort u₀) (UdpPacket.dstPort u₀)
        ((List.range (fw (policyCall cfg repr₀ u₀)).ret.toNat).map (fw (policyCall cfg repr₀ u₀)).buffer) U ∧
      UdpPacket.verifyChecksum repr₀.srcAddr repr₀.dstAddr U = true := by
  have h' := h
  unfold processUdp at h'
  obtain ⟨u', hu, h'⟩ := except_bind_eq_ok h'
  obtain ⟨ur, hur, h'⟩ := except_bind_eq_ok h'
  rw [UdpPacket.eq_of_newChecked (liftErr_eq_ok.mp hu)] at hur h'
  rw [liftErr_eq_ok] at hu hur
  rw [UdpPacket.eq_of_newChecked hu] at hu
  dsimp only at h'
  split at h'
  next => cases h'
  next hdef =>
  split at h'
  next hacc =>
    have hcap := (fw (policyCall cfg repr₀ u₀)).i32AsUsize_ret hacc.1.le ▸ not_lt.1 hdef
    obtain ⟨U', hU', he, hck⟩ := processUdp_ok cfg repr₀ u₀ fw ur _ hu hur rfl hacc hcap hfit
    rw [h] at hU'
    cases hU'
    exact ⟨ur, hu, hur, hacc, hcap, h', he, hck⟩
  next => cases h'

theorem processUdp_length {cfg : Config} {repr₀ : Ipv4Repr} {u₀ U : Bytes} {fw : Policy}
    (h : processUdp cfg repr₀ u₀ fw = .ok U) (hfit : 8 + cfg.maxUdpPacketSize < 65536) :
    U.length ≤ 8 + cfg.maxUdpPacketSize := by
  have hacc := processUdp_accepted h
  obtain ⟨-, -, -, -, -, -, he, -⟩ := processUdp_emitted h (by omega)
  rw [he.length_eq, List.length_map, List.length_range]
  omega

/-- The identity policy gives back the packet `process_udp` built, from any datagram with the
same addresses. -/
theorem processUdp_identityPolicy {cfg : Config} {repr₀ : Ipv4Repr} {u₀ U : Bytes} {fw : Policy}
    (h : processUdp cfg repr₀ u₀ fw = .ok U) (hfit : 8 + (fw (policyCall cfg repr₀ u₀)).ret.toNat < 65536)
    (repr : Ipv4Repr) (hs : repr.srcAddr = repr₀.srcAddr) (hd : repr.dstAddr = repr₀.dstAddr) :
    processUdp cfg repr U identityPolicy = .ok U := by
  obtain ⟨ur, hu, hur, hacc, -, h', he, hck⟩ := processUdp_emitted h hfit
  have hport : UdpPacket.dstPort u₀ ≠ 0 := by
    intro h0
    simp [UdpRepr.parse, h0] at hur
  set res := fw (policyCall cfg repr₀ u₀)
  have hlen : ((List.range res.ret.toNat).map res.buffer).length = res.ret.toNat := by simp
  have hret : ((identityPolicy (policyCall cfg repr U)).ret) = res.ret := by
    simp only [identityPolicy, policyCall, he.payload_eq, toNat_uint16_ofNat, hlen]
    omega
  have hbuf : (List.range res.ret.toNat).map (identityPolicy (policyCall cfg repr U)).buffer =
      (List.range res.ret.toNat).map res.buffer := by
    apply List.ext_getElem (by simp)
    intro i h₁ h₂
    simp only [List.length_map, List.length_range] at h₁
    simp [identityPolicy, policyCall, he.payload_eq, List.getD_eq_getElem?_getD, h₁]
  simp only [processUdp, UdpPacket.newChecked_emitted he, liftErr_ok, except_ok_bind]
  have hparse : UdpRepr.parse repr.srcAddr repr.dstAddr U =
      .ok ⟨UdpPacket.srcPort U, UdpPacket.dstPort U, UdpPacket.payload U⟩ := by
    simp [UdpRepr.parse, he.dstPort_eq, hport, hs, hd, hck]
  have hdef : ¬vecCapacity cfg.maxUdpPayloadSize (UdpPacket.payload U).length < i32AsUsize res.ret := by
    rw [res.i32AsUsize_ret hacc.1.le, he.payload_eq, hlen]; unfold vecCapacity; split <;> omega
  rw [hparse, liftErr_ok, except_ok_bind, hret, if_neg hdef, if_pos hacc, hbuf, he.srcPort_eq,
    he.dstPort_eq, hs, hd]
  exact h'

/-- An IPv4 datagram with a 20-byte header carrying the UDP packet `U` from `src` to `dst` with
identification `id`, as `process_ipv4` reads it. -/
structure UdpDatagram (src dst : Ipv4Address) (id : UInt16) (U D : Bytes) : Prop where
  version_eq : version D = 4
  headerLen_eq : headerLen D = 20
  length_eq : D.length = 20 + U.length
  totalLen_eq : totalLen D = 20 + U.length
  checksum : verifyChecksum D = true
  protocol_eq : protocol D = ipProtocolUdp
  srcAddr_eq : srcAddr D = src
  dstAddr_eq : dstAddr D = dst
  ident_eq : ident D = id
  payload_eq : payload D = U

namespace UdpDatagram

variable {src dst : Ipv4Address} {id : UInt16} {U D : Bytes}

theorem newChecked_eq (h : UdpDatagram src dst id U D) : newChecked D = .ok D := by
  simp [newChecked, checkLen, h.length_eq, h.headerLen_eq, h.totalLen_eq]

theorem shaveCrcFromIpv4_eq (h : UdpDatagram src dst id U D) : shaveCrcFromIpv4 D = .ok D := by
  rw [shaveCrcFromIpv4, if_neg (by rw [h.payload_eq, h.headerLen_eq, h.length_eq, ethCrcLen]; omega),
    h.newChecked_eq]

theorem parse_eq (h : UdpDatagram src dst id U D) :
    Ipv4Repr.parse D = .ok ⟨src, dst, ipProtocolUdp, U.length, hopLimit D⟩ := by
  simp [Ipv4Repr.parse, h.version_eq, h.checksum, h.payload_eq, h.totalLen_eq, h.headerLen_eq,
    h.protocol_eq, h.srcAddr_eq, h.dstAddr_eq]

/-- Under the identity policy, a datagram that carries a packet `process_udp` built for its
addresses is fragmented as that packet is. -/
theorem ipv4PacketBuffer_eq (h : UdpDatagram src dst id U D) {cfg : Config} {repr₀ : Ipv4Repr} {u₀ : Bytes} {fw : Policy}
    (hU : processUdp cfg repr₀ u₀ fw = .ok U) (hs : repr₀.srcAddr = src) (hd : repr₀.dstAddr = dst)
    (hfit : 8 + (fw (policyCall cfg repr₀ u₀)).ret.toNat < 65536) (seed : UInt16) :
    ipv4PacketBuffer cfg identityPolicy D seed = fragmentLargeUdpPacket cfg U src dst id seed := by
  have hicmp : ¬(ipProtocolUdp = ipProtocolIcmp ∨ ipProtocolUdp = ipProtocolIgmp) := by decide
  have hU' := processUdp_identityPolicy hU hfit ⟨src, dst, ipProtocolUdp, U.length, hopLimit D⟩
    hs.symm hd.symm
  simp only [ipv4PacketBuffer, h.newChecked_eq, except_ok_bind, h.shaveCrcFromIpv4_eq, liftErr_ok,
    h.parse_eq, if_neg hicmp, if_pos, h.payload_eq, hU', h.srcAddr_eq, h.dstAddr_eq, h.ident_eq]

end UdpDatagram

theorem Emitted.udpDatagram {src dst : Ipv4Address} {U D : Bytes} (he : Emitted src dst U D)
    {id : UInt16} (hid : ident D = id) (hc : verifyChecksum D = true) : UdpDatagram src dst id U D :=
  ⟨he.version_eq, he.headerLen_eq, he.length_eq, he.totalLen_eq, hc, he.protocol_eq, he.srcAddr_eq,
    he.dstAddr_eq, hid, he.payload_eq⟩

theorem HeaderOk.checked {src dst : Ipv4Address} {id : UInt16} {p : Bytes} (hp : HeaderOk src dst id p) :
    (newChecked p >>= shaveCrcFromIpv4) = .ok p := by
  have hn : newChecked p = .ok p := by
    simp [newChecked, checkLen, hp.length_eq, hp.headerLen_eq, hp.totalLen_eq]
  have hcrc : ¬(payload p).length + headerLen p + ethCrcLen = p.length := by
    rw [hp.length_eq, hp.totalLen_eq, hp.headerLen_eq, ethCrcLen]; omega
  rw [hn, except_ok_bind, shaveCrcFromIpv4, if_neg hcrc, hn]

/-- The datagram `process_ipv4_fragment` returns for the header of a fragment and the UDP packet
`U` behind it: its total length written and the checksum filled, it carries `U` under the
fragment's addresses and identification. -/
theorem HeaderOk.udpDatagram_finalize {src dst : Ipv4Address} {id : UInt16} {p : Bytes}
    (hp : HeaderOk src dst id p) (U : Bytes) (hfit : 20 + U.length < 65536) :
    UdpDatagram src dst id U (finalize (p.take 20 ++ U)) := by
  have hH : (p.take 20).length = 20 := by
    rw [List.length_take, hp.length_eq, hp.totalLen_eq]; omega
  have hg : ∀ j < 20, (p.take 20 ++ U).getD j 0 = p.getD j 0 := fun j hj => by
    rw [getD_append_left _ _ _ (by omega), getD_take _ _ _ hj]
  have hlen : (p.take 20 ++ U).length = 20 + U.length := by rw [List.length_append, hH]
  -- the bytes before the checksum is filled: the total length written at byte 2
  set X := writeU16 (p.take 20 ++ U) 2 ((p.take 20 ++ U).length % 65536) with hX
  have hXlen : X.length = 20 + U.length := by rw [hX, length_writeU16, hlen]
  have hv : version X = 4 := by
    rw [hX, version_writeU16 _ _ _ (by decide), version, hg 0 (by decide)]
    exact hp.version_eq
  have hhl : headerLen X = 20 := by
    rw [hX, headerLen_writeU16 _ _ _ (by decide), headerLen, hg 0 (by decide)]
    exact hp.headerLen_eq
  have htl : totalLen X = 20 + U.length := by
    rw [hX, totalLen, readU16_writeU16 _ _ _ (by omega), hlen]
    omega
  have hpr : protocol X = ipProtocolUdp := by
    rw [hX, protocol_writeU16 _ _ _ (by decide), protocol, hg 9 (by decide)]
    exact hp.protocol_eq
  have hhop : hopLimit X = 64 := by
    rw [hX, hopLimit_writeU16 _ _ _ (by decide), hopLimit, hg 8 (by decide)]
    exact hp.hopLimit_eq
  have hsrc : srcAddr X = src := by
    rw [hX, srcAddr_writeU16 _ _ _ (by decide), srcAddr, Ipv4Address.read,
      hg 12 (by decide), hg 13 (by decide), hg 14 (by decide), hg 15 (by decide)]
    exact hp.srcAddr_eq
  have hdst : dstAddr X = dst := by
    rw [hX, dstAddr_writeU16 _ _ _ (by decide), dstAddr, Ipv4Address.read,
      hg 16 (by decide), hg 17 (by decide), hg 18 (by decide), hg 19 (by decide)]
    exact hp.dstAddr_eq
  have hpay : payload X = U := by
    have h := slice_append (p.take 20) U
    rw [hH] at h
    rw [payload, hhl, htl, hX, slice_writeU16 _ _ _ _ _ (by decide), h]
  have hid : ident X = id := by
    rw [hX, ident_writeU16 _ _ _ (by decide), ident, readU16, hg 4 (by decide), hg 5 (by decide)]
    exact hp.ident_eq
  have he : Emitted src dst U X := ⟨hXlen, hv, hhl, htl, hpr, hhop, hsrc, hdst, hpay⟩
  refine he.fillChecksum.udpDatagram ?_
    (verifyChecksum_fillChecksum X (by rw [hhl]; decide) (by rw [hhl]; omega))
  rw [← hid]
  simp only [ident, readU16_fillChecksum _ _ (by decide : 4 + 1 < 10 ∨ 11 < 4)]

/-! ## The fragments of one datagram -/

section Index

variable {mtu : Nat} {U : Bytes} {src dst : Ipv4Address} {id : UInt16} {ps : List Bytes}

/-- Fragment `j` carries the bytes of the UDP packet from its offset on. -/
theorem FragmentsOf.payload_getElem (hF : FragmentsOf mtu U src dst id ps) {j : Nat}
    (hj : j < ps.length) : payload ps[j] = (U.drop (j * mtu)).take (payload ps[j]).length := by
  have h := List.drop_sum_flatten (ps.map payload) j
  have hj' : j < (ps.map payload).length := by simpa using hj
  rw [List.map_map, Function.comp_def, ← List.map_take, hF.sum_take_lengths j hj, hF.payloads_flatten,
    List.drop_eq_getElem_cons hj', List.flatten_cons, List.getElem_map] at h
  rw [h, List.take_left]

/-- Fragment `j` fills bytes `20 + j * MTU_UDP` on of the datagram, the first one from byte 0. -/
theorem FragmentsOf.fragRange_getElem (hF : FragmentsOf mtu U src dst id ps) (hmtu : 0 < mtu)
    {j : Nat} (hj : j < ps.length) :
    fragRange ps[j] = (if j = 0 then 0 else 20 + j * mtu, 20 + j * mtu + (payload ps[j]).length) := by
  rw [fragRange, FragmentedPacket.addRange, (hF.headerOk _ (List.getElem_mem hj)).headerLen_eq, hF.fragOffset_getElem hj]
  by_cases h0 : j = 0
  · simp [h0]
  · rw [if_neg (Nat.mul_ne_zero h0 (by omega)), if_neg h0]

theorem getD_payload {p : Bytes} (hh : headerLen p = 20) {t : Nat} (ht : t < (payload p).length) :
    (payload p).getD t 0 = p.getD (20 + t) 0 := by
  simp only [payload, hh, slice, List.length_drop, List.length_take] at ht ⊢
  simp [List.getD_eq_getElem?_getD, List.getElem?_drop, List.getElem?_take,
    show 20 + t < totalLen p by omega]

end Index

/-! ## Fragments that tile a datagram -/

/-- Whether byte `q` of the datagram lies in the range `add` fills for the fragment `p`. -/
def InRange (p : Bytes) (q : Nat) : Prop := (fragRange p).1 ≤ q ∧ q < (fragRange p).2

/-- What reassembly needs of the fragments `ps` of a datagram of `T` bytes: distinct fragments
with 20-byte headers whose ranges do not overlap and cover `[0, T)`, each carrying the datagram's
bytes `image` in its range, `last` the only one with MF clear and the one that gives the total
length, and the datagram passing the length checks. -/
structure Tiling (ps : List Bytes) (T : Nat) (image : Nat → UInt8) (last : Bytes) : Prop where
  nodup : ps.Nodup
  last_mem : last ∈ ps
  headerLen_eq : ∀ p ∈ ps, headerLen p = 20
  disjoint : ∀ p ∈ ps, ∀ p' ∈ ps, ∀ q, InRange p q → InRange p' q → p = p'
  cover : ∀ q < T, ∃ p ∈ ps, InRange p q
  bound : ∀ p ∈ ps, (fragRange p).2 ≤ T
  start : ∀ p ∈ ps, p ≠ last → InRange p (fragRange p).1
  bytes : ∀ p ∈ ps, ∀ q, InRange p q → p.getD (q - fragOffset p) 0 = image q
  moreFrags_eq : ∀ p ∈ ps, moreFrags p = false ↔ p = last
  total : fragOffset last + totalLen last = T
  assembled : newChecked ((List.range T).map image) = .ok ((List.range T).map image)

theorem map_range_getD (l : Bytes) : (List.range l.length).map (fun q => l.getD q 0) = l := by
  apply List.ext_getElem (by simp)
  intro i _ h₂
  simp only [List.getElem_map, List.getElem_range, List.getD_eq_getElem _ _ h₂]

section Tiling

variable {mtu : Nat} {U : Bytes} {src dst : Ipv4Address} {id : UInt16} {ps : List Bytes}

theorem headD_eq_getElem {ps : List Bytes} (h : 0 < ps.length) : ps.headD [] = ps[0] := by
  rw [List.headD_eq_head?, List.head?_eq_getElem?, List.getElem?_eq_getElem h, Option.getD_some]

theorem getLastD_eq_getElem {ps : List Bytes} {n : Nat} (hn : n < ps.length) (hlast : n + 1 = ps.length) :
    ps.getLastD [] = ps[n] := by
  rw [List.getLastD_eq_getLast?, List.getLast?_eq_getElem?]
  simp only [← hlast, Nat.add_sub_cancel, List.getElem?_eq_getElem hn, Option.getD_some]

theorem FragmentsOf.inRange_getElem (hF : FragmentsOf mtu U src dst id ps) (hmtu : 0 < mtu) {j : Nat}
    (hj : j < ps.length) (q : Nat) :
    InRange ps[j] q ↔
      (if j = 0 then 0 else 20 + j * mtu) ≤ q ∧ q < 20 + j * mtu + (payload ps[j]).length := by
  rw [InRange, hF.fragRange_getElem hmtu hj]

/-- Every fragment ends within the datagram, the last one at its end. -/
theorem FragmentsOf.end_le (hF : FragmentsOf mtu U src dst id ps) {j : Nat} (hj : j < ps.length) :
    20 + j * mtu + (payload ps[j]).length ≤ 20 + U.length := by
  obtain ⟨n, hn⟩ : ∃ n, n + 1 = ps.length := ⟨ps.length - 1, by omega⟩
  have hU := hF.length_eq hn
  by_cases hjn : j + 1 < ps.length
  · have h₁ : (j + 1) * mtu ≤ n * mtu := Nat.mul_le_mul_right _ (by omega)
    rw [Nat.succ_mul] at h₁
    rw [hF.length_payload_of_lt hjn]
    omega
  · obtain rfl : j = n := by omega
    omega

/-- A fragment ends where the next one begins: no byte lies in two of them. -/
theorem FragmentsOf.not_inRange_of_lt (hF : FragmentsOf mtu U src dst id ps) (hmtu : 0 < mtu)
    {i j : Nat} (hi : i < ps.length) (hj : j < ps.length) (hij : i < j) (q : Nat)
    (h : InRange ps[i] q) : ¬InRange ps[j] q := by
  intro h'
  rw [hF.inRange_getElem hmtu hi] at h
  rw [hF.inRange_getElem hmtu hj, if_neg (by omega)] at h'
  have h₁ := hF.length_payload_of_lt (show i + 1 < ps.length by omega)
  have h₂ : (i + 1) * mtu ≤ j * mtu := Nat.mul_le_mul_right _ hij
  rw [Nat.succ_mul] at h₂
  omega

theorem FragmentsOf.nodup (hF : FragmentsOf mtu U src dst id ps) (hmtu : 0 < mtu) : ps.Nodup := by
  refine List.nodup_iff_injective_get.2 fun i j hij => Fin.ext ?_
  have h := congrArg fragOffset hij
  simp only [List.get_eq_getElem, hF.fragOffset_getElem] at h
  exact Nat.eq_of_mul_eq_mul_right hmtu h

theorem FragmentsOf.eq_of_inRange (hF : FragmentsOf mtu U src dst id ps) (hmtu : 0 < mtu) :
    ∀ p ∈ ps, ∀ p' ∈ ps, ∀ q, InRange p q → InRange p' q → p = p' := by
  intro p hp p' hp' q h₁ h₂
  obtain ⟨i, hi, rfl⟩ := List.mem_iff_getElem.1 hp
  obtain ⟨j, hj, rfl⟩ := List.mem_iff_getElem.1 hp'
  rcases Nat.lt_trichotomy i j with hij | rfl | hij
  · exact absurd h₂ (hF.not_inRange_of_lt hmtu hi hj hij q h₁)
  · rfl
  · exact absurd h₁ (hF.not_inRange_of_lt hmtu hj hi hij q h₂)

/-- Every byte of the datagram lies in a fragment: byte `q` past the first fragment in fragment
`(q - 20) / MTU_UDP`. -/
theorem FragmentsOf.exists_inRange (hF : FragmentsOf mtu U src dst id ps) (hmtu : 0 < mtu)
    (hk : 2 ≤ ps.length) : ∀ q < 20 + U.length, ∃ p ∈ ps, InRange p q := by
  intro q hq
  by_cases h0 : q < 20 + mtu
  · refine ⟨ps[0], List.getElem_mem (by omega), ?_⟩
    rw [hF.inRange_getElem hmtu, hF.length_payload_of_lt (by omega), if_pos rfl, Nat.zero_mul]
    omega
  obtain ⟨j, hjq⟩ : ∃ j, j = (q - 20) / mtu := ⟨_, rfl⟩
  have hj₁ : j * mtu ≤ q - 20 := hjq ▸ Nat.div_mul_le_self _ _
  have hj₂ : q - 20 < j * mtu + mtu := hjq ▸ Nat.lt_div_mul_add hmtu
  have hj₀ : j ≠ 0 := by
    rintro rfl
    omega
  have hjk : j < ps.length := by
    by_contra hjk
    obtain ⟨n, hn⟩ : ∃ n, n + 1 = ps.length := ⟨ps.length - 1, by omega⟩
    have h₁ : (n + 1) * mtu ≤ j * mtu := Nat.mul_le_mul_right _ (by omega)
    have h₂ := hF.payload_length_le _ (List.getElem_mem (show n < ps.length by omega))
    have h₃ := hF.length_eq hn
    rw [Nat.succ_mul] at h₁
    omega
  refine ⟨ps[j], List.getElem_mem hjk, ?_⟩
  rw [hF.inRange_getElem hmtu, if_neg hj₀]
  refine ⟨by omega, ?_⟩
  by_cases hjn : j + 1 < ps.length
  · rw [hF.length_payload_of_lt hjn]; omega
  · have := hF.length_eq (show j + 1 = ps.length by omega)
    omega

/-- A fragment other than the last one holds its own first byte. -/
theorem FragmentsOf.inRange_start (hF : FragmentsOf mtu U src dst id ps) (hmtu : 0 < mtu) :
    ∀ p ∈ ps, p ≠ ps.getLastD [] → InRange p (fragRange p).1 := by
  intro p hp hne
  obtain ⟨j, hj, rfl⟩ := List.mem_iff_getElem.1 hp
  have hjn : j + 1 < ps.length := by
    by_contra h
    exact hne (getLastD_eq_getElem hj (by omega)).symm
  rw [hF.inRange_getElem hmtu hj, hF.fragRange_getElem hmtu hj, hF.length_payload_of_lt hjn]
  refine ⟨le_rfl, ?_⟩
  split_ifs <;> omega

/-- Byte `q` of a fragment's range is byte `q` of the first fragment's header followed by the
UDP packet. -/
theorem FragmentsOf.getD_inRange (hF : FragmentsOf mtu U src dst id ps) (hmtu : 0 < mtu) :
    ∀ p ∈ ps, ∀ q, InRange p q →
      p.getD (q - fragOffset p) 0 = ((ps.headD []).take 20 ++ U).getD q 0 := by
  intro p hp q hq
  obtain ⟨j, hj, rfl⟩ := List.mem_iff_getElem.1 hp
  have hk0 : 0 < ps.length := by omega
  have h₀ := hF.headerOk _ (List.getElem_mem hk0)
  have hH : ((ps.headD []).take 20).length = 20 := by
    rw [headD_eq_getElem hk0, List.length_take, h₀.length_eq, h₀.totalLen_eq]; omega
  rw [hF.inRange_getElem hmtu hj] at hq
  rw [hF.fragOffset_getElem hj]
  by_cases h20 : q < 20
  · obtain rfl : j = 0 := by
      by_contra h
      rw [if_neg h] at hq
      omega
    rw [List.getD_append _ _ _ _ (by omega), headD_eq_getElem hk0, getD_take _ _ _ h20, Nat.zero_mul,
      Nat.sub_zero]
  · have hlo : 20 + j * mtu ≤ q := by
      split_ifs at hq with h
      · subst h; omega
      · exact hq.1
    have ht : q - 20 - j * mtu < (payload ps[j]).length := by omega
    have hpay := getD_payload (hF.headerOk _ (List.getElem_mem hj)).headerLen_eq ht
    rw [show 20 + (q - 20 - j * mtu) = q - j * mtu by omega] at hpay
    rw [← hpay, List.getD_append_right _ _ _ _ (by omega), hH]
    conv_lhs => rw [hF.payload_getElem hj]
    simp only [List.getD_eq_getElem?_getD, List.getElem?_take, if_pos ht, List.getElem?_drop]
    congr 2
    omega

/-- Only the last fragment has MF clear. -/
theorem FragmentsOf.moreFrags_eq_false_iff (hF : FragmentsOf mtu U src dst id ps) (hmtu : 0 < mtu) :
    ∀ p ∈ ps, moreFrags p = false ↔ p = ps.getLastD [] := by
  intro p hp
  obtain ⟨j, hj, rfl⟩ := List.mem_iff_getElem.1 hp
  obtain ⟨n, hn⟩ : ∃ n, n + 1 = ps.length := ⟨ps.length - 1, by omega⟩
  have hkn : n < ps.length := by omega
  rw [getLastD_eq_getElem hkn hn, (hF.nodup hmtu).getElem_inj_iff]
  by_cases hjn : j + 1 < ps.length
  · rw [hF.moreFrags_dropLast _ (getElem_mem_dropLast hjn)]
    simp only [Bool.true_eq_false, false_iff]
    omega
  · obtain rfl : j = n := by omega
    simp only [iff_true]
    refine hF.moreFrags_getLast _ ?_
    rw [List.getLast?_eq_getElem?, ← hn, Nat.add_sub_cancel, List.getElem?_eq_getElem hkn]
    exact Option.mem_some_iff.2 rfl

/-- The last fragment's offset and total length give the datagram's length. -/
theorem FragmentsOf.fragOffset_add_totalLen (hF : FragmentsOf mtu U src dst id ps) :
    fragOffset (ps.getLastD []) + totalLen (ps.getLastD []) = 20 + U.length := by
  obtain ⟨n, hn⟩ : ∃ n, n + 1 = ps.length := ⟨ps.length - 1, by have := List.length_pos.2 hF.ne_nil; omega⟩
  have hkn : n < ps.length := by omega
  rw [getLastD_eq_getElem hkn hn, hF.fragOffset_getElem hkn,
    (hF.headerOk _ (List.getElem_mem hkn)).totalLen_eq, hF.length_eq hn]
  omega

/-- The first fragment's header followed by the UDP packet passes the length checks. -/
theorem FragmentsOf.newChecked_header_append (hF : FragmentsOf mtu U src dst id ps) (hmtu : 0 < mtu)
    (hk : 2 ≤ ps.length) :
    newChecked ((ps.headD []).take 20 ++ U) = .ok ((ps.headD []).take 20 ++ U) := by
  have hk0 : 0 < ps.length := by omega
  have h₀ := hF.headerOk _ (List.getElem_mem hk0)
  have hH : ((ps.headD []).take 20).length = 20 := by
    rw [headD_eq_getElem hk0, List.length_take, h₀.length_eq, h₀.totalLen_eq]; omega
  have hhl : headerLen ((ps.headD []).take 20 ++ U) = 20 := by
    rw [headerLen, getD_append_left _ _ _ (by omega), headD_eq_getElem hk0, getD_take _ _ _ (by omega)]
    exact h₀.headerLen_eq
  have htl : totalLen ((ps.headD []).take 20 ++ U) = 20 + mtu := by
    rw [totalLen, readU16_append_left _ _ _ (by omega), headD_eq_getElem hk0,
      readU16_take _ _ _ (by omega), ← totalLen, h₀.totalLen_eq, hF.length_payload_of_lt (by omega)]
  -- the packet is at least as long as the first fragment's payload
  have hmu : mtu ≤ U.length := by
    have := hF.end_le (show 1 < ps.length by omega)
    omega
  rw [newChecked, checkLen, List.length_append, hH, hhl, htl, if_neg (by omega),
    if_neg (by omega), if_neg (by omega), if_neg (by omega)]
  rfl

/-- The fragments of a UDP packet, when there are two or more, tile the datagram made of the first
fragment's header and the packet. -/
theorem FragmentsOf.tiling (hF : FragmentsOf mtu U src dst id ps) (hmtu : 0 < mtu)
    (hk : 2 ≤ ps.length) :
    Tiling ps (20 + U.length) (fun q => ((ps.headD []).take 20 ++ U).getD q 0) (ps.getLastD []) := by
  have hlen : ((ps.headD []).take 20 ++ U).length = 20 + U.length := by
    have h₀ := hF.headerOk _ (List.getElem_mem (show 0 < ps.length by omega))
    rw [List.length_append, List.length_take, headD_eq_getElem (by omega), h₀.length_eq,
      h₀.totalLen_eq]
    omega
  refine ⟨hF.nodup hmtu, ?_, fun p hp => (hF.headerOk p hp).headerLen_eq, hF.eq_of_inRange hmtu,
    hF.exists_inRange hmtu hk, fun p hp => ?_, hF.inRange_start hmtu, hF.getD_inRange hmtu,
    hF.moreFrags_eq_false_iff hmtu, hF.fragOffset_add_totalLen, ?_⟩
  · rw [getLastD_eq_getElem (show ps.length - 1 < ps.length by omega) (by omega)]
    exact List.getElem_mem _
  · obtain ⟨j, hj, rfl⟩ := List.mem_iff_getElem.1 hp
    rw [hF.fragRange_getElem hmtu hj]
    exact hF.end_le hj
  · rw [← hlen, map_range_getD]
    exact hF.newChecked_header_append hmtu hk

theorem Tiling.twenty_le {ps : List Bytes} {T : Nat} {image : Nat → UInt8} {last : Bytes}
    (hT : Tiling ps T image last) : 20 ≤ T := by
  have h := hT.assembled
  by_contra hlt
  rw [newChecked, checkLen, if_pos (by simpa using hlt)] at h
  cases h

end Tiling

/-! ## The filled prefix -/

namespace FragmentedPacket

theorem self_le_firstGap (e : FragmentedPacket) : ∀ n i, i ≤ e.firstGap n i
  | 0, _ => le_rfl
  | n + 1, i => by
    simp only [firstGap]
    split
    · exact Nat.le_of_succ_le (self_le_firstGap e n (i + 1))
    · exact le_rfl

theorem firstGap_le (e : FragmentedPacket) {a : Nat} (ha : e.covered a = false) :
    ∀ n i, i ≤ a → e.firstGap n i ≤ a
  | 0, _, hi => hi
  | n + 1, i, hi => by
    simp only [firstGap]
    split
    case isTrue hc =>
      have : i ≠ a := fun h => by rw [h, ha] at hc; cases hc
      exact firstGap_le e ha n (i + 1) (by omega)
    case isFalse => exact hi

theorem le_firstGap (e : FragmentedPacket) {a : Nat} :
    ∀ n i, a ≤ i + n → (∀ q, i ≤ q → q < a → e.covered q = true) → a ≤ e.firstGap n i
  | 0, _, h, _ => h
  | n + 1, i, h, hc => by
    by_cases hi : i < a
    · simp only [firstGap, if_pos (hc i le_rfl hi)]
      exact le_firstGap e n (i + 1) (by omega) fun q h₁ h₂ => hc q (by omega) h₂
    · exact le_trans (by omega) (self_le_firstGap e (n + 1) i)

/-- The filled prefix ends at the first byte no range covers, when that byte fits the buffer. -/
theorem frontLen_eq {e : FragmentedPacket} {cap T : Nat} (hT : T ≤ cap)
    (hcov : ∀ q < T, e.covered q = true) (hgap : e.covered T = false) : e.frontLen cap = T :=
  le_antisymm (e.firstGap_le hgap cap 0 (Nat.zero_le _))
    (e.le_firstGap cap 0 (by omega) fun q _ hq => hcov q hq)

theorem add_totalLen {e e' : FragmentedPacket} {cap hl off pl : Nat} {data : Bytes} {ts : Int}
    (h : e.add cap hl off pl data ts = .ok e') : e'.totalLen = e.totalLen := by
  unfold add at h
  dsimp only at h
  split at h
  · cases h
  · cases h; rfl

end FragmentedPacket

open FragmentedPacket

theorem prepareEntry_totalLen (p : Bytes) (e : FragmentedPacket) :
    (prepareEntry p e).totalLen =
      if moreFrags p = false then some (fragOffset p + totalLen p) else e.totalLen := by
  unfold prepareEntry
  cases moreFrags p <;> split <;> rfl

/-! ## An entry while the fragments arrive -/

/-- Entry `e` holds the fragments `S` of the datagram of key `K`: it is started once one has
arrived, its filled ranges are theirs, every filled byte is the datagram's, and it has the total
length once the last fragment has arrived. -/
structure Holds (K : FragmentKey) (T : Nat) (image : Nat → UInt8) (last : Bytes) (S : List Bytes)
    (e : FragmentedPacket) : Prop where
  started : e.started = !S.isEmpty
  key : e.started = true → e.key = K
  filled : e.filled = S.map fragRange
  bytes : ∀ q, e.covered q = true → e.buffer q = image q
  totalLen : e.totalLen = if last ∈ S then some T else none

section Holds

variable {ps : List Bytes} {T : Nat} {image : Nat → UInt8} {last : Bytes} {K : FragmentKey}
  {S : List Bytes} {e : FragmentedPacket}

theorem Holds.covered_iff (h : Holds K T image last S e) (q : Nat) :
    e.covered q = true ↔ ∃ p ∈ S, InRange p q := by
  simp [covered, h.filled, InRange]

/-- An entry that is not started, with no filled range and no total length, holds nothing. -/
theorem holds_nil (hs : e.started = false) (hf : e.filled = []) (ht : e.totalLen = none) :
    Holds K T image last [] e where
  started := by rw [hs]; rfl
  key h := by rw [hs] at h; cases h
  filled := hf
  bytes q hq := by simp [covered, hf] at hq
  totalLen := by rw [ht]; simp

/-- A fragment of the datagram arriving at an entry that holds some of its fragments: `add`
succeeds, and the entry holds the fragment too. -/
theorem Holds.add (hT : Tiling ps T image last) (h : Holds K T image last S e) {p : Bytes}
    (hp : p ∈ ps) (hk : fragmentKey p = K) {cap : Nat} (hcap : T ≤ cap) (ts : Int) :
    ∃ e₃, (prepareEntry p e).add cap (headerLen p) (fragOffset p) (payload p).length p ts = .ok e₃ ∧
      Holds K T image last (S ++ [p]) e₃ := by
  have hfit : (fragRange p).2 ≤ cap := (hT.bound p hp).trans hcap
  obtain ⟨e₃, hadd⟩ : ∃ e₃, (prepareEntry p e).add cap (headerLen p) (fragOffset p)
      (payload p).length p ts = .ok e₃ := by
    unfold FragmentedPacket.add
    exact ⟨_, if_neg (Nat.not_lt.2 hfit)⟩
  obtain ⟨-, hst, hkey, hfill, hbuf⟩ := add_eq_ok hadd
  refine ⟨e₃, hadd, ⟨by rw [hst, prepareEntry_started]; simp, fun _ => ?_, ?_, fun q hq => ?_, ?_⟩⟩
  · rw [hkey, prepareEntry_key, isEmpty_eq]
    cases hs : e.started
    · exact hk
    · exact h.key hs
  · rw [hfill, prepareEntry_filled, h.filled, List.map_append]; rfl
  · rw [hbuf q]
    split_ifs with hr
    · exact hT.bytes p hp q hr
    · rw [covered_add hadd, Bool.or_eq_true] at hq
      have hq' : e.covered q = true := by
        rcases hq with hq | hq
        · rwa [covered, prepareEntry_filled] at hq
        · exact absurd (by simpa using hq) hr
      rw [prepareEntry_buffer]
      exact h.bytes q hq'
  · rw [add_totalLen hadd, prepareEntry_totalLen]
    by_cases hl : p = last
    · subst hl
      rw [if_pos ((hT.moreFrags_eq p hp).2 rfl), hT.total, if_pos (List.mem_append_right _ (List.mem_singleton_self p))]
    · rw [if_neg (fun h => hl ((hT.moreFrags_eq p hp).1 h)), h.totalLen]
      simp [hl, Ne.symm hl]

/-- Once all the fragments have arrived, the filled prefix is the datagram. -/
theorem Holds.frontLen_eq (hT : Tiling ps T image last) (h : Holds K T image last S e)
    (hS : S ⊆ ps) (hall : ∀ x ∈ ps, x ∈ S) {cap : Nat} (hcap : T ≤ cap) : e.frontLen cap = T := by
  refine FragmentedPacket.frontLen_eq hcap (fun q hq => ?_) ?_
  · obtain ⟨x, hx, hin⟩ := hT.cover q hq
    exact (h.covered_iff q).2 ⟨x, hall x hx, hin⟩
  · rw [Bool.eq_false_iff]
    intro hc
    obtain ⟨x, hx, hin⟩ := (h.covered_iff T).1 hc
    have := hT.bound x (hS hx)
    exact absurd hin.2 (by omega)

/-- `check_contig_range` holds exactly when all the fragments have arrived: until then the total
length is unknown, or the first byte of a missing fragment is a gap before it. -/
theorem Holds.checkContigRange_iff (hT : Tiling ps T image last) (h : Holds K T image last S e)
    (hS : S ⊆ ps) {cap : Nat} (hcap : T ≤ cap) :
    e.checkContigRange cap = true ↔ ∀ x ∈ ps, x ∈ S := by
  constructor
  · intro hc x hx
    unfold checkContigRange at hc
    rw [h.totalLen] at hc
    split_ifs at hc with hl
    · have hfront : T ≤ e.frontLen cap := by simpa using hc
      by_cases hxl : x = last
      · exact hxl ▸ hl
      · have hin := hT.start x hx hxl
        have hcov := e.covered_of_lt_firstGap cap 0 (fragRange x).1 (Nat.zero_le _)
          (lt_of_lt_of_le (lt_of_lt_of_le hin.2 (hT.bound x hx)) hfront)
        obtain ⟨y, hy, hiny⟩ := (h.covered_iff _).1 hcov
        exact hT.disjoint y (hS hy) x hx _ hiny hin ▸ hy
  · intro hall
    unfold checkContigRange
    rw [h.totalLen, if_pos (hall last hT.last_mem), h.frontLen_eq hT hS hall hcap]
    simp

theorem Holds.getBuffer_eq (hT : Tiling ps T image last) (h : Holds K T image last S e)
    (hall : ∀ x ∈ ps, x ∈ S) : e.getBuffer 0 T = (List.range T).map image := by
  unfold getBuffer
  refine List.map_congr_left fun q hq => ?_
  rw [List.mem_range] at hq
  obtain ⟨x, hx, hin⟩ := hT.cover q hq
  rw [Nat.zero_add]
  exact h.bytes q ((h.covered_iff q).2 ⟨x, hall x hx, hin⟩)

theorem append_singleton_subset {S ps : List Bytes} {p : Bytes} (hS : S ⊆ ps) (hp : p ∈ ps) :
    S ++ [p] ⊆ ps :=
  List.append_subset.2 ⟨hS, List.cons_subset.2 ⟨hp, List.nil_subset _⟩⟩

section Call

variable (cfg : Config) {p : Bytes} (ts : Int)

/-- A fragment that leaves another one missing: the call returns nothing yet, and the entry
holds the fragment. -/
theorem processEntry_pending (hT : Tiling ps T image last) (h : Holds K T image last S e)
    (hS : S ⊆ ps) (hp : p ∈ ps) (hk : fragmentKey p = K)
    (hcap : T ≤ cfg.maxReassembledFragmentSize) (hmiss : ∃ x ∈ ps, x ∉ S ++ [p]) :
    ∃ e₃, processEntry cfg p ts e = (.ok none, e₃) ∧ Holds K T image last (S ++ [p]) e₃ := by
  obtain ⟨e₃, hadd, h₃⟩ := h.add hT hp hk hcap ts
  have hS' := append_singleton_subset hS hp
  have hc : e₃.checkContigRange cfg.maxReassembledFragmentSize = false := by
    rw [Bool.eq_false_iff]
    intro hc
    obtain ⟨x, hx, hn⟩ := hmiss
    exact hn ((h₃.checkContigRange_iff hT hS' hcap).1 hc x hx)
  refine ⟨e₃, ?_, h₃⟩
  unfold processEntry
  simp only [hadd, hc]
  rfl

/-- The fragment that completes the datagram: the call returns the datagram made of the bytes
`image`, finalized, and resets the entry. -/
theorem processEntry_done (hT : Tiling ps T image last) (h : Holds K T image last S e)
    (hS : S ⊆ ps) (hp : p ∈ ps) (hk : fragmentKey p = K) (hcap : T ≤ cfg.maxReassembledFragmentSize)
    (hall : ∀ x ∈ ps, x ∈ S ++ [p]) :
    ∃ e₄, processEntry cfg p ts e = (.ok (some (finalize ((List.range T).map image))), e₄) ∧
      Holds K T image last [] e₄ := by
  obtain ⟨e₃, hadd, h₃⟩ := h.add hT hp hk hcap ts
  have hS' := append_singleton_subset hS hp
  have hc := (h₃.checkContigRange_iff hT hS' hcap).2 hall
  have hfront : e₃.front cfg.maxReassembledFragmentSize = some T := by
    unfold FragmentedPacket.front
    rw [h₃.frontLen_eq hT hS' hall hcap, if_neg (by have := hT.twenty_le; omega)]
  have hA : ((List.range T).map image).length = T := by simp
  have hset := getBuffer_setBuffer e₃ 0 (finalize ((List.range T).map image))
  rw [Nat.zero_add, length_finalize, hA] at hset
  have hfin : fillChecksum (Ipv4Packet.setTotalLen ((List.range T).map image) (T % 65536)) =
      finalize ((List.range T).map image) := by rw [finalize, hA]
  refine ⟨(e₃.setBuffer 0 (finalize ((List.range T).map image))).reset, ?_, holds_nil rfl rfl rfl⟩
  unfold processEntry
  simp only [hadd, hc, if_true, hfront, h₃.getBuffer_eq hT hall, hT.assembled]
  rw [hfin, hset]

end Call

end Holds

/-! ## Clean tables

An entry that is not started has no filled range and no total length: a new entry has none, and
`reset` clears both. Every table a run of the firewall reaches is clean. -/

/-- Every entry of the table that is not started has no filled range and no total length. -/
def FragmentSet.Clean (t : FragmentSet) : Prop :=
  ∀ j, (t.getD j FragmentedPacket.new).started = false →
    (t.getD j FragmentedPacket.new).filled = [] ∧ (t.getD j FragmentedPacket.new).totalLen = none

theorem getD_fragmentSet_new (cfg : Config) (j : Nat) :
    (FragmentSet.new cfg).getD j FragmentedPacket.new = FragmentedPacket.new := by
  simp only [FragmentSet.new, List.getD_eq_getElem?_getD, List.getElem?_replicate]
  split_ifs <;> rfl

theorem clean_new (cfg : Config) : (FragmentSet.new cfg).Clean := by
  intro j _
  rw [getD_fragmentSet_new]
  exact ⟨rfl, rfl⟩

theorem FragmentSet.Clean.processIpv4Fragment {cfg : Config} {p : Bytes} {ts : Int} {t : FragmentSet}
    (h : t.Clean) : (processIpv4Fragment cfg p ts t).2.Clean := by
  unfold Rustwall.processIpv4Fragment
  split
  · exact h
  next i t' hg =>
    have h' : t'.Clean := by
      rcases getPacket_table hg with rfl | rfl
      · exact h
      · intro j hj
        rw [getD_modify] at hj ⊢
        split_ifs at hj ⊢
        · exact ⟨rfl, rfl⟩
        · exact h j hj
    intro j hj
    rw [getD_set] at hj ⊢
    split_ifs at hj ⊢
    · rcases processEntry_entry cfg p ts (t'.getD i FragmentedPacket.new) with ⟨x, hx⟩ | ⟨hs, -⟩
      · rw [hx]; exact ⟨rfl, rfl⟩
      · rw [hs] at hj; cases hj
    · exact h' j hj

/-- Reading a frame changes the fragment set only through `process_ipv4_fragment`. -/
theorem receiveIpv4_fragments (cfg : Config) (f : Bytes) (s : Pipeline) :
    ((receiveIpv4 cfg f).run s).2.fragments = s.fragments ∨
      ∃ p ts, ((receiveIpv4 cfg f).run s).2.fragments = (processIpv4Fragment cfg p ts s.fragments).2 := by
  rw [run_receiveIpv4]
  split
  · exact .inl rfl
  next p _ =>
    rw [run_reassemble]
    split
    · exact .inr ⟨p, _, rfl⟩
    · exact .inl rfl

/-- `process_ethernet` changes the fragment set only through `process_ipv4_fragment`. -/
theorem processEthernet_fragments (cfg : Config) (mac : Bytes) (fw : Policy) (checkMac : Bool)
    (frame : Bytes) (s : Pipeline) :
    ((processEthernet cfg mac fw checkMac frame).run s).2.fragments = s.fragments ∨
      ∃ p ts, ((processEthernet cfg mac fw checkMac frame).run s).2.fragments =
        (processIpv4Fragment cfg p ts s.fragments).2 := by
  unfold processEthernet
  cases EthernetFrame.newChecked frame with
  | error e => exact .inl rfl
  | ok f =>
    simp only [check_ok, pure_bind]
    split
    · exact .inl rfl
    · split
      · have hs := (processIpv4_fragments_ms cfg fw f s).1
        have hr := receiveIpv4_fragments cfg f s
        rw [← hs] at hr
        rcases hx : (processIpv4 cfg fw f).run s with ⟨r, s₁⟩
        rw [hx] at hr
        cases r with
        | error e => rw [run_bind_error hx]; exact hr
        | ok ps => rw [run_bind_ok hx, run_modify]; exact hr
      · exact .inl rfl
      · rw [run_modify]; split <;> exact .inl rfl
      · exact .inl rfl

theorem FragmentSet.Clean.processEthernet {cfg : Config} {mac : Bytes} {fw : Policy}
    {checkMac : Bool} {frame : Bytes} {s : Pipeline} (h : s.fragments.Clean) :
    ((Rustwall.processEthernet cfg mac fw checkMac frame).run s).2.fragments.Clean := by
  rcases processEthernet_fragments cfg mac fw checkMac frame s with hf | ⟨p, ts, hf⟩
  · rw [hf]; exact h
  · rw [hf]; exact h.processIpv4Fragment

/-- Both fragment sets stay clean over any run of the firewall. -/
theorem firewall_run_clean (cfg : Config) (mac : Bytes) :
    ∀ (is : List Invocation) {w : Firewall}, (∀ d, (w.lane d).fragments.Clean) →
      ∀ d, ((w.run cfg mac is).2.lane d).fragments.Clean
  | [], _, h => h
  | i :: is, w, h => by
    refine firewall_run_clean cfg mac is fun d => ?_
    show ((w.step cfg mac i).2.pipeline d).fragments.Clean
    by_cases hd : i.dir = d
    · subst hd
      rw [Firewall.step_pipeline_self]
      exact (h i.dir).processEthernet
    · rw [Firewall.step_pipeline_other cfg mac w i hd]
      exact h d

theorem firewall_init_clean (cfg : Config) (d : Direction) : ((Firewall.init cfg).lane d).fragments.Clean := by
  cases d <;> exact clean_new cfg

/-! ## The table while the fragments arrive -/

/-- The table a datagram's fragments start arriving at: entry `i` is its first empty entry, and no
started entry holds the datagram's key `K`. -/
structure Fresh (K : FragmentKey) (t₀ : FragmentSet) (i : Nat) : Prop where
  first_empty : t₀.findIdx? FragmentedPacket.isEmpty = some i
  no_key : ∀ j, (t₀.getD j FragmentedPacket.new).started = true →
    (t₀.getD j FragmentedPacket.new).key ≠ K

/-- The table after the fragments `S` arrived at `t₀`: entry `i` holds them, and the other
entries are those of `t₀`. -/
structure Feeding (K : FragmentKey) (T : Nat) (image : Nat → UInt8) (last : Bytes)
    (t₀ : FragmentSet) (i : Nat) (S : List Bytes) (t : FragmentSet) : Prop where
  lt_length : i < t.length
  length_eq : t.length = t₀.length
  other : ∀ j, j ≠ i → t.getD j FragmentedPacket.new = t₀.getD j FragmentedPacket.new
  holds : Holds K T image last S (t.getD i FragmentedPacket.new)

section Feeding

variable {K : FragmentKey} {T : Nat} {image : Nat → UInt8} {last : Bytes} {t₀ t : FragmentSet}
  {i : Nat} {S : List Bytes}

theorem Fresh.feeding (hf : Fresh K t₀ i) (hc : t₀.Clean) : Feeding K T image last t₀ i [] t₀ := by
  obtain ⟨hil, hemp, -⟩ := List.findIdx?_eq_some_iff_getElem.1 hf.first_empty
  have hs : (t₀.getD i FragmentedPacket.new).started = false := by
    rw [List.getD_eq_getElem _ _ hil]; simpa [isEmpty_eq] using hemp
  exact ⟨hil, rfl, fun _ _ => rfl, holds_nil hs (hc i hs).1 (hc i hs).2⟩

/-- While the fragments arrive, `get_packet` hands out entry `i` and changes nothing: it holds
the key once started, and before that it is the first empty entry. -/
theorem Feeding.getPacket (hf : Fresh K t₀ i) (h : Feeding K T image last t₀ i S t) (cfg : Config)
    (ts : Int) : FragmentSet.getPacket cfg t K ts = some (i, t) := by
  obtain ⟨hi₀, -, hbefore⟩ := List.findIdx?_eq_some_iff_getElem.1 hf.first_empty
  have hit := h.lt_length
  have hget : ∀ j (hj : j < t.length), t[j] = t.getD j FragmentedPacket.new :=
    fun j hj => (List.getD_eq_getElem _ _ hj).symm
  -- no entry but `i` holds the key
  have hkey : ∀ j (hj : j < t.length), j ≠ i → (t[j].started && t[j].key == K) = false := by
    intro j hj hji
    rw [hget j hj, h.other j hji]
    cases hs : (t₀.getD j FragmentedPacket.new).started
    · rfl
    · rw [Bool.true_and, beq_eq_false_iff_ne]; exact hf.no_key j hs
  unfold FragmentSet.getPacket
  by_cases hS : S = []
  · have hs : (t.getD i FragmentedPacket.new).started = false := by rw [h.holds.started, hS]; rfl
    have h₁ : t.findIdx? (fun e => e.started && e.key == K) = none := by
      rw [List.findIdx?_eq_none_iff]
      intro x hx
      obtain ⟨j, hj, rfl⟩ := List.mem_iff_getElem.1 hx
      by_cases hji : j = i
      · subst hji; rw [hget j hj, hs]; rfl
      · exact hkey j hj hji
    have h₂ : t.findIdx? FragmentedPacket.isEmpty = some i := by
      rw [List.findIdx?_eq_some_iff_getElem]
      refine ⟨h.lt_length, by rw [hget i h.lt_length, isEmpty_eq, hs]; rfl, fun j hj => ?_⟩
      rw [hget j (by omega), h.other j (by omega), List.getD_eq_getElem _ _ (by omega)]
      exact hbefore j hj
    rw [h₁, h₂]
  · have hs : (t.getD i FragmentedPacket.new).started = true := by
      rw [h.holds.started]; simpa using hS
    have h₁ : t.findIdx? (fun e => e.started && e.key == K) = some i := by
      rw [List.findIdx?_eq_some_iff_getElem]
      refine ⟨h.lt_length, ?_, fun j hj => ?_⟩
      · rw [hget i h.lt_length, hs, h.holds.key hs]; simp
      · rw [hkey j (by omega) (by omega)]; decide
    rw [h₁]

theorem Feeding.set (h : Feeding K T image last t₀ i S t) {S' : List Bytes} {e : FragmentedPacket}
    (he : Holds K T image last S' e) : Feeding K T image last t₀ i S' (t.set i e) where
  lt_length := by rw [List.length_set]; exact h.lt_length
  length_eq := by rw [List.length_set, h.length_eq]
  other j hj := by rw [getD_set, if_neg (fun h' => hj h'.1.symm), h.other j hj]
  holds := by rw [getD_set, if_pos ⟨rfl, h.lt_length⟩]; exact he

variable {ps : List Bytes} {p : Bytes} (cfg : Config) (ts : Int)

/-- A fragment that leaves another one missing: `process_ipv4_fragment` returns nothing yet. -/
theorem Feeding.processIpv4Fragment_pending (hf : Fresh K t₀ i) (h : Feeding K T image last t₀ i S t)
    (hT : Tiling ps T image last) (hS : S ⊆ ps) (hp : p ∈ ps) (hk : fragmentKey p = K)
    (hcap : T ≤ cfg.maxReassembledFragmentSize) (hmiss : ∃ x ∈ ps, x ∉ S ++ [p]) :
    ∃ t', processIpv4Fragment cfg p ts t = (.ok none, t') ∧
      Feeding K T image last t₀ i (S ++ [p]) t' := by
  obtain ⟨e₃, he, h₃⟩ := processEntry_pending cfg ts hT h.holds hS hp hk hcap hmiss
  refine ⟨_, ?_, h.set h₃⟩
  rw [processIpv4Fragment, hk, h.getPacket hf cfg ts]
  simp only [he]

/-- The fragment that completes the datagram: `process_ipv4_fragment` returns it, and entry `i`
is empty again. -/
theorem Feeding.processIpv4Fragment_done (hf : Fresh K t₀ i) (h : Feeding K T image last t₀ i S t)
    (hT : Tiling ps T image last) (hS : S ⊆ ps) (hp : p ∈ ps) (hk : fragmentKey p = K)
    (hcap : T ≤ cfg.maxReassembledFragmentSize) (hall : ∀ x ∈ ps, x ∈ S ++ [p]) :
    ∃ t', processIpv4Fragment cfg p ts t = (.ok (some (finalize ((List.range T).map image))), t') ∧
      Feeding K T image last t₀ i [] t' := by
  obtain ⟨e₄, he, h₄⟩ := processEntry_done cfg ts hT h.holds hS hp hk hcap hall
  refine ⟨_, ?_, h.set h₄⟩
  rw [processIpv4Fragment, hk, h.getPacket hf cfg ts]
  simp only [he]

end Feeding

/-! ## Frames through `process_ethernet` -/

theorem ethertype_append {hdr : Bytes} (hhdr : hdr.length = ethernetFramePayload) (q : Bytes) :
    EthernetFrame.ethertype (hdr ++ q) = EthernetFrame.ethertype hdr := by
  rw [EthernetFrame.ethertype, readU16_append_left _ _ _ (by rw [hhdr]; decide), ← EthernetFrame.ethertype]

/-- An IPv4 frame with `check_mac` off goes to `process_ipv4`, and what it returns is enqueued. -/
theorem run_processEthernet_ipv4 (cfg : Config) (mac : Bytes) (fw : Policy) {f : Bytes}
    (hf : ethernetFramePayload ≤ f.length) (heth : EthernetFrame.ethertype f = .ipv4) (s : Pipeline) :
    (processEthernet cfg mac fw false f).run s =
      match (processIpv4 cfg fw f).run s with
      | (.ok packets, s₁) => (.ok (), { s₁ with queue := enqueue cfg.maxEnqueuedPackets packets s₁.queue })
      | (.error e, s₁) => (.error e, s₁) := by
  unfold processEthernet
  rw [EthernetFrame.newChecked_eq_ok _ hf]
  simp only [check_ok, pure_bind, Bool.false_and, Bool.false_eq_true, if_false, heth]
  rcases hx : (processIpv4 cfg fw f).run s with ⟨r, s₁⟩
  cases r with
  | error e => rw [run_bind_error hx]
  | ok ps => rw [run_bind_ok hx, run_modify]

/-- A frame whose reading gives the datagram `D`, which `ipv4_packet_buffer` turns into the packets
`ps`: the frame's header goes in front of each, and all are enqueued when there is room. -/
theorem processEthernet_deliver (cfg : Config) (mac : Bytes) (fw : Policy) {hdr q D : Bytes}
    (hhdr : hdr.length = ethernetFramePayload) (heth : EthernetFrame.ethertype hdr = .ipv4)
    {s s₁ : Pipeline} (hrecv : (receiveIpv4 cfg (hdr ++ q)).run s = (.ok D, s₁)) {ps : List Bytes}
    (hne : ps ≠ []) (hbuf : (ipv4PacketBuffer cfg fw D s₁.seed).1 = .ok ps)
    (hroom : s₁.queue.length + ps.length ≤ cfg.maxEnqueuedPackets) :
    ∃ s', (processEthernet cfg mac fw false (hdr ++ q)).run s = (.ok (), s') ∧
      s'.queue = s₁.queue ++ ps.map (hdr ++ ·) ∧ s'.fragments = s₁.fragments := by
  have hlen : ethernetFramePayload ≤ (hdr ++ q).length := by simp [hhdr]
  have htake : (hdr ++ q).take ethernetFramePayload = hdr := by
    rw [← hhdr, List.take_left]
  have hframes : ethPacketBuffer (hdr ++ q) ps = .ok (ps.map (hdr ++ ·)) := by
    rw [ethPacketBuffer, if_neg (by simpa using hne), htake]
    exact mapM_frames hdr ps fun x _ => by simp [hhdr]
  rw [run_processEthernet_ipv4 cfg mac fw hlen (by rw [ethertype_append hhdr, heth]), processIpv4,
    run_bind_ok hrecv, run_processDatagram, hbuf, except_ok_bind, hframes, liftErr_ok]
  exact ⟨_, rfl, enqueue_eq_append _ _ _ (by simpa using hroom), rfl⟩

/-- The fragments `ps` of a datagram of `T` bytes, fed to the firewall behind the Ethernet header
`hdr`: they tile the datagram, which fits a reassembly buffer; they hold its key `K`, pass the
length checks and are UDP fragments; and the datagram they reassemble to is fragmented into them
again. -/
structure Feed (cfg : Config) (hdr : Bytes) (ps : List Bytes) (T : Nat) (image : Nat → UInt8)
    (last : Bytes) (K : FragmentKey) : Prop where
  tiling : Tiling ps T image last
  fits : T ≤ cfg.maxReassembledFragmentSize
  header_length : hdr.length = ethernetFramePayload
  ethertype_eq : EthernetFrame.ethertype hdr = .ipv4
  key_eq : ∀ p ∈ ps, fragmentKey p = K
  checked : ∀ p ∈ ps, (newChecked p >>= shaveCrcFromIpv4) = .ok p
  fragment : ∀ p ∈ ps, isUdpFragment p = true
  again : ∀ seed, (ipv4PacketBuffer cfg identityPolicy (finalize ((List.range T).map image)) seed).1 = .ok ps

/-- The invocations that feed `frames` to direction `d` under the identity policy, with
`check_mac` off. -/
def feedFrames (d : Direction) (frames : List Bytes) : List Invocation :=
  frames.map fun o => ⟨d, false, identityPolicy, o⟩

section Feed

variable {cfg : Config} {hdr : Bytes} {ps : List Bytes} {T : Nat} {image : Nat → UInt8} {last : Bytes}
  {K : FragmentKey} {t₀ : FragmentSet} {i : Nat} {S : List Bytes} {p : Bytes}

/-- A fed frame goes to `process_ipv4_fragment` with its IPv4 packet. -/
theorem Feed.receiveIpv4_run (hfd : Feed cfg hdr ps T image last K) (hp : p ∈ ps) (s : Pipeline) :
    (receiveIpv4 cfg (hdr ++ p)).run s =
      ((match (processIpv4Fragment cfg p (wrapI64 (s.ms + 1)) s.fragments).1 with
        | .ok (some assembled) => .ok assembled
        | .ok none => .error (.err .fragmented)
        | .error e => .error (.err e)),
        { s with fragments := (processIpv4Fragment cfg p (wrapI64 (s.ms + 1)) s.fragments).2,
                 ms := wrapI64 (s.ms + 1) }) := by
  rw [run_receiveIpv4, EthernetFrame.newChecked_eq_ok _ (by simp [hfd.header_length]), except_ok_bind,
    EthernetFrame.payload, List.drop_left' hfd.header_length, hfd.checked p hp]
  dsimp only
  rw [run_reassemble]
  exact if_pos (hfd.fragment p hp)

/-- A fragment that leaves another one missing: the frame is answered `Err(Fragmented)` and nothing
is enqueued. -/
theorem Feed.processEthernet_pending (hfd : Feed cfg hdr ps T image last K) (hf : Fresh K t₀ i)
    {s : Pipeline} (h : Feeding K T image last t₀ i S s.fragments) (hS : S ⊆ ps) (hp : p ∈ ps)
    (hmiss : ∃ x ∈ ps, x ∉ S ++ [p]) (mac : Bytes) :
    ∃ t', (processEthernet cfg mac identityPolicy false (hdr ++ p)).run s =
        (.error (.err .fragmented), { s with fragments := t', ms := wrapI64 (s.ms + 1) }) ∧
      Feeding K T image last t₀ i (S ++ [p]) t' := by
  obtain ⟨t', ht', hfe⟩ := h.processIpv4Fragment_pending cfg (wrapI64 (s.ms + 1)) hf hfd.tiling hS hp
    (hfd.key_eq p hp) hfd.fits hmiss
  have hrecv : (receiveIpv4 cfg (hdr ++ p)).run s =
      (.error (.err .fragmented), { s with fragments := t', ms := wrapI64 (s.ms + 1) }) := by
    rw [hfd.receiveIpv4_run hp, ht']
  refine ⟨t', ?_, hfe⟩
  rw [run_processEthernet_ipv4 cfg mac _ (by simp [hfd.header_length])
    (by rw [ethertype_append hfd.header_length, hfd.ethertype_eq]), processIpv4, run_bind_error hrecv]

/-- The fragment that completes the datagram: every fragment is enqueued again behind the header. -/
theorem Feed.processEthernet_done (hfd : Feed cfg hdr ps T image last K) (hf : Fresh K t₀ i)
    {s : Pipeline} (h : Feeding K T image last t₀ i S s.fragments) (hS : S ⊆ ps) (hp : p ∈ ps)
    (hall : ∀ x ∈ ps, x ∈ S ++ [p]) (hroom : s.queue.length + ps.length ≤ cfg.maxEnqueuedPackets)
    (mac : Bytes) :
    ∃ s', (processEthernet cfg mac identityPolicy false (hdr ++ p)).run s = (.ok (), s') ∧
      s'.queue = s.queue ++ ps.map (hdr ++ ·) ∧ Feeding K T image last t₀ i [] s'.fragments := by
  obtain ⟨t', ht', hfe⟩ := h.processIpv4Fragment_done cfg (wrapI64 (s.ms + 1)) hf hfd.tiling hS hp
    (hfd.key_eq p hp) hfd.fits hall
  have hrecv : (receiveIpv4 cfg (hdr ++ p)).run s = (.ok (finalize ((List.range T).map image)),
      { s with fragments := t', ms := wrapI64 (s.ms + 1) }) := by
    rw [hfd.receiveIpv4_run hp, ht']
  obtain ⟨s', hrun, hq, hfr⟩ := processEthernet_deliver cfg mac identityPolicy hfd.header_length
    hfd.ethertype_eq hrecv (List.ne_nil_of_mem hfd.tiling.last_mem) (hfd.again _) hroom
  exact ⟨s', hrun, hq, hfr ▸ hfe⟩

/-- Feeding the remaining fragments `R`, the ones of `S` having arrived: every frame but the last
is answered `Err(Fragmented)` and leaves the queue as it was, and the last one enqueues all the
fragments again, in their first order. -/
theorem Feed.run (hfd : Feed cfg hdr ps T image last K) (hf : Fresh K t₀ i) (mac : Bytes)
    (d : Direction) :
    ∀ (R S : List Bytes) (w : Firewall), R ≠ [] → (S ++ R).Perm ps →
      Feeding K T image last t₀ i S (w.lane d).fragments →
      (w.lane d).queue.length + ps.length ≤ cfg.maxEnqueuedPackets →
      (w.run cfg mac (feedFrames d (R.map (hdr ++ ·)))).1 =
          List.replicate (R.length - 1) (.error (.err .fragmented)) ++ [.ok ()] ∧
        ((w.run cfg mac (feedFrames d (R.map (hdr ++ ·)))).2.lane d).queue =
          (w.lane d).queue ++ ps.map (hdr ++ ·) ∧
        ∀ m < R.length,
          ((w.run cfg mac (feedFrames d ((R.take m).map (hdr ++ ·)))).2.lane d).queue = (w.lane d).queue
  | [], _, _, hne, _, _, _ => absurd rfl hne
  | p :: R, S, w, _, hperm, h, hroom => by
    have hsub : S ++ p :: R ⊆ ps := hperm.subset
    have hS : S ⊆ ps := fun x hx => hsub (List.mem_append_left _ hx)
    have hp : p ∈ ps := hsub (by simp)
    have hstep : (w.step cfg mac ⟨d, false, identityPolicy, hdr ++ p⟩).2.pipeline d =
        ((processEthernet cfg mac identityPolicy false (hdr ++ p)).run (w.pipeline d)).2 :=
      Firewall.step_pipeline_self cfg mac w _
    simp only [feedFrames, List.map_cons, List.take_succ_cons, Firewall.run] at *
    cases R with
    | nil =>
      have hall : ∀ x ∈ ps, x ∈ S ++ [p] := fun x hx => hperm.symm.subset hx
      have h' : Feeding K T image last t₀ i S (w.pipeline d).fragments := h
      have hroom' : (w.pipeline d).queue.length + ps.length ≤ cfg.maxEnqueuedPackets := hroom
      obtain ⟨s', hrun, hq, -⟩ := hfd.processEthernet_done hf h' hS hp hall hroom' mac
      have hq' : ((w.step cfg mac ⟨d, false, identityPolicy, hdr ++ p⟩).2.lane d).queue = s'.queue := by
        show ((w.step cfg mac ⟨d, false, identityPolicy, hdr ++ p⟩).2.pipeline d).queue = _
        rw [hstep, hrun]
      refine ⟨?_, ?_, fun m hm => ?_⟩
      · show [((processEthernet cfg mac identityPolicy false (hdr ++ p)).run (w.pipeline d)).1] = _
        rw [hrun]; rfl
      · simpa [Firewall.run] using hq'.trans hq
      · obtain rfl : m = 0 := by simpa using hm
        rfl
    | cons p' R =>
      -- the next fragment has not arrived yet
      have hnd : ((S ++ [p]) ++ p' :: R).Nodup := by simpa using hperm.nodup_iff.2 hfd.tiling.nodup
      have hmiss : ∃ x ∈ ps, x ∉ S ++ [p] :=
        ⟨p', hsub (by simp), fun hx => (List.nodup_append.1 hnd).2.2 hx (List.mem_cons_self _ _)⟩
      have h' : Feeding K T image last t₀ i S (w.pipeline d).fragments := h
      obtain ⟨t', hrun, hfe⟩ := hfd.processEthernet_pending hf h' hS hp hmiss mac
      set w' := (w.step cfg mac ⟨d, false, identityPolicy, hdr ++ p⟩).2
      have hw : (w'.lane d).fragments = t' ∧ (w'.lane d).queue = (w.lane d).queue := by
        show (w'.pipeline d).fragments = t' ∧ (w'.pipeline d).queue = (w.pipeline d).queue
        rw [hstep, hrun]
        exact ⟨rfl, rfl⟩
      obtain ⟨ih₁, ih₂, ih₃⟩ := Feed.run hfd hf mac d (p' :: R) (S ++ [p]) w' (List.cons_ne_nil _ _)
        (by simpa using hperm) (hw.1 ▸ hfe) (hw.2 ▸ hroom)
      simp only [feedFrames] at ih₁ ih₂ ih₃
      have hres : (w.step cfg mac ⟨d, false, identityPolicy, hdr ++ p⟩).1 = .error (.err .fragmented) := by
        show ((processEthernet cfg mac identityPolicy false (hdr ++ p)).run (w.pipeline d)).1 = _
        rw [hrun]
      refine ⟨?_, by rw [ih₂, hw.2], fun m hm => ?_⟩
      · rw [hres, ih₁]
        simp [List.replicate_succ]
      · cases m with
        | zero => rfl
        | succ m =>
          simp only [List.take_succ_cons, List.map_cons, Firewall.run]
          rw [← hw.2]
          exact ih₃ m (by simpa using hm)

end Feed

/-! ## The frames of the first pass -/

/-- The packets of `fragment_large_udp_packet` depend on the identification it gives them, not on
the counter: called again with that identification, when it is not zero, it cuts the same
packets. -/
theorem fragmentLargeUdpPacket_fragmentIdent (cfg : Config) (u : Bytes) (src dst : Ipv4Address)
    (packetId seed : UInt16) (h : cfg.mtuUdp ≤ u.length → fragmentIdent cfg u packetId seed ≠ 0)
    (seed' : UInt16) :
    (fragmentLargeUdpPacket cfg u src dst (fragmentIdent cfg u packetId seed) seed').1 =
      (fragmentLargeUdpPacket cfg u src dst packetId seed).1 := by
  unfold fragmentLargeUdpPacket
  by_cases hs : u.length < cfg.mtuUdp
  · simp only [if_pos hs]
    rw [fragmentIdent, if_neg (by omega)]
  · have h0 := h (by omega)
    simp only [if_neg hs]
    by_cases hp : packetId = 0
    · have hid : fragmentIdent cfg u packetId seed = getPseudorandomPacketId seed :=
        if_pos ⟨by omega, hp⟩
      rw [hid] at h0 ⊢
      simp only [if_neg h0, if_pos hp]
    · have hid : fragmentIdent cfg u packetId seed = packetId := if_neg fun h => hp h.2
      simp only [hid, if_neg hp]

section FirstPass

variable {cfg : Config} {U : Bytes} {src dst : Ipv4Address} {id : UInt16} {ps : List Bytes}

/-- When a UDP packet is cut in two or more, every piece is a UDP fragment: all but the last have
MF set, and all but the first have a nonzero offset. -/
theorem FragmentsOf.isUdpFragment_of_two_le (hF : FragmentsOf cfg.mtuUdp U src dst id ps) (hk : 2 ≤ ps.length) :
    ∀ p ∈ ps, isUdpFragment p = true := by
  intro p hp
  obtain ⟨j, hj, rfl⟩ := List.mem_iff_getElem.1 hp
  have hpr := (hF.headerOk _ hp).protocol_eq
  by_cases hjn : j + 1 < ps.length
  · simp [isUdpFragment, hF.moreFrags_dropLast _ (getElem_mem_dropLast hjn), hpr]
  · have hoff : 0 < fragOffset ps[j] := by
      rw [hF.fragOffset_getElem hj]
      exact Nat.mul_pos (by omega) cfg.mtuUdp_pos
    simp [isUdpFragment, hoff, hpr]

/-- The fragments the first pass cut a UDP packet into, two or more, make a `Feed` behind any IPv4
Ethernet header: once they are reassembled, the identity policy and the fragmenter give them
back. -/
theorem FragmentsOf.feed (hF : FragmentsOf cfg.mtuUdp U src dst id ps) (hk : 2 ≤ ps.length)
    (hcap : 20 + U.length ≤ cfg.maxReassembledFragmentSize) (hfit : 20 + U.length < 65536)
    (hagain : ∀ D, UdpDatagram src dst id U D → ∀ seed,
      (ipv4PacketBuffer cfg identityPolicy D seed).1 = .ok ps)
    {hdr : Bytes} (hhdr : hdr.length = ethernetFramePayload)
    (heth : EthernetFrame.ethertype hdr = .ipv4) :
    Feed cfg hdr ps (20 + U.length) (fun q => ((ps.headD []).take 20 ++ U).getD q 0) (ps.getLastD [])
      ⟨id, src, dst⟩ where
  tiling := hF.tiling cfg.mtuUdp_pos hk
  fits := hcap
  header_length := hhdr
  ethertype_eq := heth
  key_eq p hp := by
    have h := hF.headerOk p hp
    rw [fragmentKey, h.ident_eq, h.srcAddr_eq, h.dstAddr_eq]
  checked p hp := (hF.headerOk p hp).checked
  fragment := hF.isUdpFragment_of_two_le hk
  again seed := by
    have hne : ps ≠ [] := hF.ne_nil
    have h0 : ps.headD [] ∈ ps := by
      obtain ⟨a, l, rfl⟩ := List.exists_cons_of_ne_nil hne
      exact List.mem_cons_self _ _
    have hD := (hF.headerOk _ h0).udpDatagram_finalize U hfit
    have hlen : ((ps.headD []).take 20 ++ U).length = 20 + U.length := by
      rw [List.length_append, List.length_take, (hF.headerOk _ h0).length_eq,
        (hF.headerOk _ h0).totalLen_eq]
      omega
    rw [← hlen, map_range_getD]
    exact hagain _ hD seed

/-- A UDP packet shorter than `MTU_UDP` goes out as one datagram that carries it whole and is not a
fragment. -/
theorem FragmentsOf.udpDatagram_of_length_one (hF : FragmentsOf cfg.mtuUdp U src dst id ps)
    (hk : ps.length = 1) : ∃ q, ps = [q] ∧ UdpDatagram src dst id U q ∧ isUdpFragment q = false := by
  obtain ⟨q, rfl⟩ := List.length_eq_one.1 hk
  have hh := hF.headerOk q (List.mem_singleton_self q)
  have hpay : payload q = U := by simpa using hF.payloads_flatten
  have hmf : moreFrags q = false := hF.moreFrags_getLast q (by simp)
  have hoff : fragOffset q = 0 := by simpa using hF.fragOffset_eq 0 (by simp)
  refine ⟨q, rfl, ⟨hh.version_eq, hh.headerLen_eq, ?_, ?_, hh.checksum, hh.protocol_eq, hh.srcAddr_eq,
    hh.dstAddr_eq, hh.ident_eq, hpay⟩, by simp [isUdpFragment, hmf, hoff]⟩
  · rw [hh.length_eq, hh.totalLen_eq, hpay]
  · rw [hh.totalLen_eq, hpay]

end FirstPass

/-- Feeding the fragments, in any order, to a direction whose table is clean, has an empty entry
and no entry for their key: all frames but the last are answered `Err(Fragmented)` and leave the
queue alone, and the last one enqueues every fragment again, in the first order. -/
theorem Feed.firewall_run {cfg : Config} {hdr : Bytes} {ps : List Bytes} {T : Nat}
    {image : Nat → UInt8} {last : Bytes} {K : FragmentKey} (hfd : Feed cfg hdr ps T image last K)
    (mac : Bytes) (d : Direction) (w : Firewall) (hclean : (w.lane d).fragments.Clean)
    (hfree : ∃ j < (w.lane d).fragments.length,
      ((w.lane d).fragments.getD j FragmentedPacket.new).started = false)
    (hkey : ∀ j, ((w.lane d).fragments.getD j FragmentedPacket.new).started = true →
      ((w.lane d).fragments.getD j FragmentedPacket.new).key ≠ K)
    {qs : List Bytes} (hqs : qs.Perm ps)
    (hroom : (w.lane d).queue.length + ps.length ≤ cfg.maxEnqueuedPackets) :
    (w.run cfg mac (feedFrames d (qs.map (hdr ++ ·)))).1 =
        List.replicate (ps.length - 1) (.error (.err .fragmented)) ++ [.ok ()] ∧
      ((w.run cfg mac (feedFrames d (qs.map (hdr ++ ·)))).2.lane d).queue =
        (w.lane d).queue ++ ps.map (hdr ++ ·) ∧
      ∀ m < ps.length,
        ((w.run cfg mac (feedFrames d ((qs.map (hdr ++ ·)).take m))).2.lane d).queue = (w.lane d).queue := by
  obtain ⟨i, hi⟩ : ∃ i, (w.lane d).fragments.findIdx? FragmentedPacket.isEmpty = some i := by
    rcases hx : (w.lane d).fragments.findIdx? FragmentedPacket.isEmpty with _ | i
    · obtain ⟨j, hj, hs⟩ := hfree
      have h := List.findIdx?_eq_none_iff.1 hx _ (List.getElem_mem hj)
      rw [← List.getD_eq_getElem _ FragmentedPacket.new hj, isEmpty_eq, hs] at h
      cases h
    · exact ⟨i, rfl⟩
  have hfresh : Fresh K (w.lane d).fragments i := ⟨hi, hkey⟩
  have hne : qs ≠ [] := by
    rintro rfl
    exact List.ne_nil_of_mem hfd.tiling.last_mem (List.nil_perm.1 hqs)
  obtain ⟨h₁, h₂, h₃⟩ := hfd.run hfresh mac d qs [] w hne (by simpa using hqs) (hfresh.feeding hclean) hroom
  rw [hqs.length_eq] at h₁ h₃
  exact ⟨h₁, h₂, fun m hm => by rw [← List.map_take]; exact h₃ m hm⟩

/-- The frames `process_ipv4` reads leave the queue alone. -/
theorem length_of_receiveIpv4 {cfg : Config} {f dg : Bytes} {s s₁ : Pipeline}
    (h : (receiveIpv4 cfg f).run s = (.ok dg, s₁)) : ethernetFramePayload ≤ f.length := by
  by_contra hlt
  rw [run_receiveIpv4, EthernetFrame.newChecked, if_pos (Nat.lt_of_not_le hlt)] at h
  cases h

/-- An IPv4 frame, with `check_mac` off, whose frames all fit the queue: all are enqueued. -/
theorem processEthernet_enqueue_all (cfg : Config) (mac : Bytes) (fw : Policy) {f : Bytes}
    (hf : ethernetFramePayload ≤ f.length) (heth : EthernetFrame.ethertype f = .ipv4) {s : Pipeline}
    {O : List Bytes} (hO : ((processIpv4 cfg fw f).run s).1 = .ok O)
    (hroom : s.queue.length + O.length ≤ cfg.maxEnqueuedPackets) :
    ((processEthernet cfg mac fw false f).run s).2.queue = s.queue ++ O := by
  rw [run_processEthernet_ipv4 cfg mac fw hf heth]
  have hq := processIpv4_queue cfg fw f s
  rcases hx : (processIpv4 cfg fw f).run s with ⟨r, s₂⟩
  rw [hx] at hO hq
  simp only at hO hq
  subst hO
  rw [← hq] at hroom ⊢
  exact enqueue_eq_append _ _ _ hroom

theorem exists_perm_of_perm_map_append {hdr : Bytes} {order ps : List Bytes}
    (h : order.Perm (ps.map (hdr ++ ·))) : ∃ qs : List Bytes, qs.Perm ps ∧ order = qs.map (hdr ++ ·) := by
  refine ⟨order.map (List.drop hdr.length), by simpa [Function.comp_def] using h.map (List.drop hdr.length), ?_⟩
  rw [List.map_map]
  conv_lhs => rw [← List.map_id order]
  refine List.map_congr_left fun o ho => ?_
  obtain ⟨x, -, rfl⟩ := List.mem_map.1 (h.subset ho)
  simp

/-- A datagram that is not a fragment, fed alone: it is enqueued as it is. -/
theorem firewall_run_single (cfg : Config) (mac : Bytes) (d : Direction) {hdr q : Bytes}
    (hhdr : hdr.length = ethernetFramePayload) (heth : EthernetFrame.ethertype hdr = .ipv4)
    {src dst : Ipv4Address} {id : UInt16} {U : Bytes} (hq : UdpDatagram src dst id U q)
    (hnf : isUdpFragment q = false)
    (hagain : ∀ seed, (ipv4PacketBuffer cfg identityPolicy q seed).1 = .ok [q]) (w : Firewall)
    (hroom : (w.lane d).queue.length + 1 ≤ cfg.maxEnqueuedPackets) :
    (w.run cfg mac (feedFrames d [hdr ++ q])).1 = [.ok ()] ∧
      ((w.run cfg mac (feedFrames d [hdr ++ q])).2.lane d).queue = (w.lane d).queue ++ [hdr ++ q] := by
  have hrecv : (receiveIpv4 cfg (hdr ++ q)).run (w.pipeline d) = (.ok q, w.pipeline d) := by
    rw [run_receiveIpv4, EthernetFrame.newChecked_eq_ok _ (by simp [hhdr]), except_ok_bind,
      EthernetFrame.payload, List.drop_left' hhdr, hq.newChecked_eq, except_ok_bind,
      hq.shaveCrcFromIpv4_eq]
    dsimp only
    rw [run_reassemble, if_neg (by rw [hnf]; decide)]
  have hroom' : (w.pipeline d).queue.length + [q].length ≤ cfg.maxEnqueuedPackets := hroom
  obtain ⟨s', hrun, hqueue, -⟩ := processEthernet_deliver cfg mac identityPolicy hhdr heth hrecv
    (List.cons_ne_nil _ _) (hagain _) hroom'
  have hstep : (w.step cfg mac ⟨d, false, identityPolicy, hdr ++ q⟩).2.pipeline d =
      ((processEthernet cfg mac identityPolicy false (hdr ++ q)).run (w.pipeline d)).2 :=
    Firewall.step_pipeline_self cfg mac w _
  rw [hrun] at hstep
  refine ⟨?_, ?_⟩
  · show [((processEthernet cfg mac identityPolicy false (hdr ++ q)).run (w.pipeline d)).1] = _
    rw [hrun]
  · show ((w.step cfg mac ⟨d, false, identityPolicy, hdr ++ q⟩).2.pipeline d).queue = _
    rw [hstep, hqueue]
    rfl

/-! ## The round trip -/

theorem processEthernet_round_trip (cfg : Config) (mac : Bytes) (fw : Policy) (d : Direction)
    (f : Bytes) (s : Pipeline) (O : List Bytes)
    (heth : EthernetFrame.ethertype f = .ipv4) (hO : ((processIpv4 cfg fw f).run s).1 = .ok O)
    (hudp : ∃ dg s₁ P repr, (receiveIpv4 cfg f).run s = (.ok dg, s₁) ∧
      (newChecked dg >>= shaveCrcFromIpv4) = .ok P ∧ Ipv4Repr.parse P = .ok repr ∧
      repr.protocol = ipProtocolUdp ∧
      28 + (fw (policyCall cfg repr (payload P))).ret.toNat ≤ cfg.maxReassembledFragmentSize ∧
      28 + (fw (policyCall cfg repr (payload P))).ret.toNat < 65536)
    (hroom₀ : s.queue.length + O.length ≤ cfg.maxEnqueuedPackets)
    (hid : 2 ≤ O.length → ∀ o ∈ O, ident (o.drop ethernetFramePayload) ≠ 0)
    (order : List Bytes) (horder : order.Perm O) (w : Firewall)
    (hclean : (w.lane d).fragments.Clean)
    (hfree : ∃ j < (w.lane d).fragments.length,
      ((w.lane d).fragments.getD j FragmentedPacket.new).started = false)
    (hkey : ∀ o ∈ O, ∀ j, ((w.lane d).fragments.getD j FragmentedPacket.new).started = true →
      ((w.lane d).fragments.getD j FragmentedPacket.new).key ≠ fragmentKey (o.drop ethernetFramePayload))
    (hroom : (w.lane d).queue.length + O.length ≤ cfg.maxEnqueuedPackets) :
    ((processEthernet cfg mac fw false f).run s).2.queue = s.queue ++ O ∧
      (w.run cfg mac (feedFrames d order)).1 =
        List.replicate (O.length - 1) (.error (.err .fragmented)) ++ [.ok ()] ∧
      ((w.run cfg mac (feedFrames d order)).2.lane d).queue = (w.lane d).queue ++ O ∧
      ∀ m < O.length,
        ((w.run cfg mac (feedFrames d (order.take m))).2.lane d).queue = (w.lane d).queue := by
  obtain ⟨dg, s₁, P, repr, hrecv, hP, hparse, hprot, hcap, hfit⟩ := hudp
  obtain ⟨dg', s₁', P', repr', hrecv', hP', hparse', hcase⟩ := processIpv4_frames cfg fw f s hO
  rw [hrecv] at hrecv'; cases hrecv'
  rw [hP] at hP'; cases hP'
  rw [hparse] at hparse'; cases hparse'
  rcases hcase with ⟨hicmp, -⟩ | ⟨-, U, ps, hU, -, -, hps, rfl⟩
  · rw [hprot] at hicmp
    exact absurd hicmp (by decide)
  have hf14 := length_of_receiveIpv4 hrecv
  set hdr := f.take ethernetFramePayload with hhdr_def
  have hhdr : hdr.length = ethernetFramePayload := by rw [hhdr_def, List.length_take]; omega
  have hethh : EthernetFrame.ethertype hdr = .ipv4 := by
    rw [hhdr_def, EthernetFrame.ethertype, readU16_take _ _ _ (by decide), ← EthernetFrame.ethertype, heth]
  -- the fragments of the packet, and how the pipeline cuts the datagram they reassemble to
  have hUlen : U.length = 8 + (fw (policyCall cfg repr (payload P))).ret.toNat := by
    obtain ⟨-, -, -, -, -, -, he, -⟩ := processUdp_emitted hU (by omega)
    rw [he.length_eq, List.length_map, List.length_range]
  obtain ⟨ps', hps', hF, h2, -⟩ :=
    fragmentLargeUdpPacket_fragments cfg U (srcAddr P) (dstAddr P) (ident P) s₁.seed (by omega)
  rw [hps, Except.ok.injEq] at hps'
  subst hps'
  have hsrc : repr.srcAddr = srcAddr P := by rw [Ipv4Repr.parse_eq_ok hparse]
  have hdst : repr.dstAddr = dstAddr P := by rw [Ipv4Repr.parse_eq_ok hparse]
  have hmem0 : ∀ hk : 0 < ps.length, hdr ++ ps[0] ∈ ps.map (hdr ++ ·) :=
    fun hk => List.mem_map_of_mem _ (List.getElem_mem hk)
  have hid0 : cfg.mtuUdp ≤ U.length → fragmentIdent cfg U (ident P) s₁.seed ≠ 0 := by
    intro hm
    have h := hid (by rw [List.length_map]; exact h2 hm) _ (hmem0 (by have := h2 hm; omega))
    rwa [List.drop_left' hhdr, (hF.headerOk _ (List.getElem_mem _)).ident_eq] at h
  have hagain : ∀ D, UdpDatagram (srcAddr P) (dstAddr P) (fragmentIdent cfg U (ident P) s₁.seed) U D →
      ∀ seed, (ipv4PacketBuffer cfg identityPolicy D seed).1 = .ok ps := by
    intro D hD seed
    rw [hD.ipv4PacketBuffer_eq hU hsrc hdst (by omega) seed,
      fragmentLargeUdpPacket_fragmentIdent cfg U _ _ _ _ hid0, hps]
  obtain ⟨qs, hqs, rfl⟩ := exists_perm_of_perm_map_append horder
  refine ⟨processEthernet_enqueue_all cfg mac fw hf14 heth hO hroom₀, ?_⟩
  rw [List.length_map] at hroom ⊢
  by_cases hk : 2 ≤ ps.length
  · have hfd := hF.feed hk (by omega) (by omega) hagain hhdr hethh
    refine hfd.firewall_run mac d w hclean hfree (fun j hs => ?_) hqs hroom
    have h := hkey _ (hmem0 (by omega)) j hs
    rwa [List.drop_left' hhdr, hfd.key_eq _ (List.getElem_mem _)] at h
  · have hk1 : ps.length = 1 := by
      have := List.length_pos.2 hF.ne_nil
      omega
    obtain ⟨q, rfl, hq, hnf⟩ := hF.udpDatagram_of_length_one hk1
    rw [List.perm_singleton.1 hqs]
    obtain ⟨h₁, h₂⟩ := firewall_run_single cfg mac d hhdr hethh hq hnf (hagain q hq) w hroom
    refine ⟨h₁, h₂, fun m hm => ?_⟩
    obtain rfl : m = 0 := by simpa using hm
    rfl

/-- The two frames the firewall builds for `idZeroFrame` from its start-up state: fragments with
identification 43, the counter's next value, carrying the 16 bytes of `sampleUdpPacket` and an
empty last piece at offset 16. -/
def idZeroFragments : List Bytes :=
  [broadcastHeader ++ [69, 0, 0, 36, 0, 43, 32, 0, 64, 17, 70, 156, 10, 0, 0, 1, 10, 0, 0, 2] ++
      sampleUdpPacket,
    broadcastHeader ++ [69, 0, 0, 20, 0, 43, 0, 2, 64, 17, 102, 170, 10, 0, 0, 1, 10, 0, 0, 2]]

theorem processEthernet_round_trip_reversed :
    ((processEthernet Config.small clientMac identityPolicy false idZeroFrame).run
        (Pipeline.init Config.small)).2.queue = (Pipeline.init Config.small).queue ++ idZeroFragments ∧
      ((Firewall.init Config.small).run Config.small clientMac
          (feedFrames .ingress idZeroFragments.reverse)).1 =
        List.replicate (idZeroFragments.length - 1) (.error (.err .fragmented)) ++ [.ok ()] ∧
      (((Firewall.init Config.small).run Config.small clientMac
          (feedFrames .ingress idZeroFragments.reverse)).2.lane .ingress).queue =
        ((Firewall.init Config.small).lane .ingress).queue ++ idZeroFragments ∧
      ∀ m < idZeroFragments.length,
        (((Firewall.init Config.small).run Config.small clientMac
            (feedFrames .ingress (idZeroFragments.reverse.take m))).2.lane .ingress).queue =
          ((Firewall.init Config.small).lane .ingress).queue :=
  processEthernet_round_trip Config.small clientMac identityPolicy .ingress
    idZeroFrame (Pipeline.init Config.small) idZeroFragments rfl rfl
    ⟨_, _, _, _, rfl, rfl, rfl, rfl, by decide, by decide⟩
    (by decide) (by decide) _ (List.reverse_perm _) (Firewall.init Config.small)
    (firewall_init_clean _ _) ⟨0, by decide, rfl⟩
    (fun _ _ j h => absurd h (by
      rw [show ((Firewall.init Config.small).lane .ingress).fragments = FragmentSet.new Config.small
        from rfl, getD_fragmentSet_new]
      decide))
    (by decide)

/-- A broadcast IPv4 frame carrying `longUdpPacket` with identification 7: the firewall cuts it into
five fragments, one more than its queue holds. -/
def longUdpFrame : Bytes :=
  broadcastHeader ++
    fillChecksum ([0x45, 0, 0, 92, 0, 7, 0, 0, 64, 17, 0, 0, 10, 0, 0, 1, 10, 0, 0, 2] ++ longUdpPacket)

set_option maxRecDepth 4000 in
/-- Without room for all the fragments the round trip fails: `process_ethernet` builds five frames
for `longUdpFrame` and enqueues the first four, with identification 7; fed back, none of the four
completes the datagram, and nothing is enqueued. -/
theorem processEthernet_round_trip_tail_dropped :
    ((processIpv4 Config.small identityPolicy longUdpFrame).run (Pipeline.init Config.small)).1.map
        List.length = .ok 5 ∧
      (((processEthernet Config.small clientMac identityPolicy false longUdpFrame).run
        (Pipeline.init Config.small)).2.queue.map fun o => ident (o.drop ethernetFramePayload)) = [7, 7, 7, 7] ∧
      ((Firewall.init Config.small).run Config.small clientMac (feedFrames .ingress
          ((processEthernet Config.small clientMac identityPolicy false longUdpFrame).run
            (Pipeline.init Config.small)).2.queue)).1 = List.replicate 4 (.error (.err .fragmented)) ∧
      (((Firewall.init Config.small).run Config.small clientMac (feedFrames .ingress
          ((processEthernet Config.small clientMac identityPolicy false longUdpFrame).run
            (Pipeline.init Config.small)).2.queue)).2.lane .ingress).queue = [] :=
  ⟨rfl, rfl, rfl, rfl⟩

end Rustwall
