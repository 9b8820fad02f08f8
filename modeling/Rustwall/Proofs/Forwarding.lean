import Rustwall.Proofs.RoundTrip
import Rustwall.Driver.Buffers

/-!
# What the firewall forwards

The outbound queues are the only output of the firewall. This module says, for every run of the
two directions, where each frame in a queue comes from, how many frames one invocation can add,
and what a failed invocation leaves behind.

* `Forwarded` lists the three ways `process_ethernet` puts a frame in a queue: an ARP frame passed
  through; an IPv4 frame passed through, whose packet passed the length checks and carries ICMP,
  IGMP or a UDP fragment; and a frame built of an input frame's Ethernet header and a fragment of
  the packet `process_udp` rebuilt from that invocation's datagram, after the policy's call on
  that datagram returned a positive length. Every one comes from an input frame of the same
  direction that the MAC filter let through.
* `firewall_run_forwarded`: after any interleaving of invocations, every frame of a direction's
  queue was there before the run or is `Forwarded` from one of that direction's invocations; from
  start-up, every frame is `Forwarded` (`firewall_reachable_forwarded`), and so is an ARP frame or
  an IPv4 frame carrying ICMP, IGMP or UDP (`firewall_reachable_protocols`).
* `firewall_run_drain`: when the frames given to the firewall were read from the shared buffers,
  every queued frame fits a shared buffer, so draining the queues never panics and the receiving
  side reads each frame back unchanged.
* `processEthernet_queue_length_le`: one invocation adds at most `(8 + MAX_UDP_PACKET_SIZE) /
  MTU_UDP + 1` frames, whatever the frame, the policy and the state.
* `processEthernet_error_confined`: an invocation that returns an `Err` leaves the queue and `SEED`
  as they were, and leaves the whole state alone unless the frame reached reassembly.
-/

namespace Rustwall

open Ipv4Packet

/-! ## Where a queued frame comes from -/

/-- How a frame comes to be in a direction's queue, given the invocations `is` of that direction.
Each case starts from an invocation whose frame the MAC filter let through. -/
inductive Forwarded (cfg : Config) (mac : Bytes) (is : List Invocation) : Bytes → Prop
  /-- An ARP frame, passed through. -/
  | arp {i : Invocation} : i ∈ is → macPasses mac i.checkMac i.frame = true →
      ethernetFramePayload ≤ i.frame.length → EthernetFrame.ethertype i.frame = .arp →
      Forwarded cfg mac is i.frame
  /-- An IPv4 frame whose packet passed the length checks and carries ICMP, IGMP or a UDP
  fragment, passed through. -/
  | passThrough {i : Invocation} {P : Bytes} : i ∈ is → macPasses mac i.checkMac i.frame = true →
      EthernetFrame.ethertype i.frame = .ipv4 →
      (newChecked (EthernetFrame.payload i.frame) >>= shaveCrcFromIpv4) = .ok P →
      (protocol P = ipProtocolIcmp ∨ protocol P = ipProtocolIgmp) ∨ isUdpFragment P = true →
      Forwarded cfg mac is i.frame
  /-- The Ethernet header of an IPv4 frame in front of a fragment of the UDP packet `process_udp`
  rebuilt from the invocation's datagram `P`, after the invocation's policy call on `P` returned a
  positive length. `P` is the frame's own IPv4 packet unless that packet is a UDP fragment. -/
  | built {i : Invocation} {P₀ P U p : Bytes} {repr : Ipv4Repr} {id : UInt16} {ps : List Bytes} :
      i ∈ is → macPasses mac i.checkMac i.frame = true → ethernetFramePayload ≤ i.frame.length →
      EthernetFrame.ethertype i.frame = .ipv4 →
      (newChecked (EthernetFrame.payload i.frame) >>= shaveCrcFromIpv4) = .ok P₀ →
      (isUdpFragment P₀ = false → P = P₀) → Ipv4Repr.parse P = .ok repr →
      repr.protocol = ipProtocolUdp → 0 < (i.fw (policyCall cfg repr (payload P))).ret →
      processUdp cfg repr (payload P) i.fw = .ok U →
      FragmentsOf cfg.mtuUdp U (srcAddr P) (dstAddr P) id ps → p ∈ ps →
      Forwarded cfg mac is (i.frame.take ethernetFramePayload ++ p)

theorem Forwarded.mono {cfg : Config} {mac : Bytes} {is js : List Invocation} {q : Bytes}
    (h : Forwarded cfg mac is q) (hsub : is ⊆ js) : Forwarded cfg mac js q := by
  cases h with
  | arp hi hm hl he => exact .arp (hsub hi) hm hl he
  | passThrough hi hm he hP hpr => exact .passThrough (hsub hi) hm he hP hpr
  | built hi hm hf he hP₀ hP hr hudp hacc hU hF hp =>
    exact .built (hsub hi) hm hf he hP₀ hP hr hudp hacc hU hF hp

/-- A frame `process_ipv4` read has an IPv4 packet that passed the length checks; unless that
packet is a UDP fragment, `process_ipv4` goes on with the frame's own payload. -/
theorem receiveIpv4_checked {cfg : Config} {f d : Bytes} {s s₁ : Pipeline}
    (h : (receiveIpv4 cfg f).run s = (.ok d, s₁)) :
    ∃ P, (newChecked (EthernetFrame.payload f) >>= shaveCrcFromIpv4) = .ok P ∧
      (isUdpFragment P = false → d = EthernetFrame.payload f) := by
  have hl := length_of_receiveIpv4 h
  rw [run_receiveIpv4, EthernetFrame.newChecked_eq_ok f hl, except_ok_bind] at h
  cases hP : newChecked (EthernetFrame.payload f) >>= shaveCrcFromIpv4 with
  | error e => rw [hP] at h; cases h
  | ok P =>
    refine ⟨P, rfl, fun hfr => ?_⟩
    rw [hP] at h
    dsimp only at h
    rw [run_reassemble, if_neg (by rw [hfr]; decide)] at h
    cases h
    rfl

/-- What an invocation offers its queue: nothing, its own frame, or the fragments of a UDP packet
of at most `8 + MAX_UDP_PACKET_SIZE` bytes, each behind the frame's Ethernet header; every frame
offered is `Forwarded` from the invocation. -/
theorem offered_cases (cfg : Config) (mac : Bytes) (i : Invocation) (s : Pipeline)
    (hfit : 28 + cfg.maxUdpPacketSize < 65536) :
    offered cfg mac i.fw i.checkMac i.frame s = [] ∨
      offered cfg mac i.fw i.checkMac i.frame s = [i.frame] ∧ Forwarded cfg mac [i] i.frame ∨
      ∃ U src dst id ps, U.length ≤ 8 + cfg.maxUdpPacketSize ∧ FragmentsOf cfg.mtuUdp U src dst id ps ∧
        offered cfg mac i.fw i.checkMac i.frame s = ps.map (i.frame.take ethernetFramePayload ++ ·) ∧
        ∀ p ∈ ps, Forwarded cfg mac [i] (i.frame.take ethernetFramePayload ++ p) := by
  have hi : i ∈ [i] := List.mem_singleton_self i
  unfold offered
  cases hn : EthernetFrame.newChecked i.frame with
  | error e => exact .inl rfl
  | ok f =>
    obtain ⟨rfl, hlen⟩ := EthernetFrame.length_of_newChecked hn
    dsimp only
    split
    case isFalse => exact .inl rfl
    case isTrue hm =>
      cases het : EthernetFrame.ethertype i.frame
      case ipv4 =>
        dsimp only
        split
        case h_2 => exact .inl rfl
        case h_1 O hO =>
          obtain ⟨d, s₁, P, repr, hrecv, hP, hr, hcase⟩ := processIpv4_frames cfg i.fw i.frame s hO
          obtain ⟨P', hP', hd⟩ := receiveIpv4_checked hrecv
          rcases hcase with ⟨hicmp, rfl⟩ | ⟨hudp, U, ps, hU, hacc, -, hps, rfl⟩
          · refine .inr (.inl ⟨rfl, .passThrough hi hm het hP' ?_⟩)
            cases hfr : isUdpFragment P'
            case true => exact .inr rfl
            case false =>
              rw [hd hfr, hP', Except.ok.injEq] at hP
              subst hP
              rw [Ipv4Repr.parse_eq_ok hr] at hicmp
              exact .inl hicmp
          · have hUl := processUdp_length hU (by omega)
            obtain ⟨ps', hps', hF, -, -⟩ := fragmentLargeUdpPacket_fragments cfg U (srcAddr P)
              (dstAddr P) (ident P) s₁.seed (by omega)
            rw [hps] at hps'
            cases hps'
            have hPP : isUdpFragment P' = false → P = P' := fun hfr => by
              rw [hd hfr, hP'] at hP
              exact (Except.ok.inj hP).symm
            exact .inr (.inr ⟨U, _, _, _, ps, hUl, hF, rfl, fun p hp =>
              .built hi hm hlen het hP' hPP hr hudp hacc hU hF hp⟩)
      case arp => exact .inr (.inl ⟨rfl, .arp hi hm hlen het⟩)
      all_goals exact .inl rfl

/-- Every frame an invocation offers its queue is `Forwarded` from that invocation. -/
theorem offered_forwarded (cfg : Config) (mac : Bytes) (i : Invocation) (s : Pipeline)
    (hfit : 28 + cfg.maxUdpPacketSize < 65536) :
    ∀ q ∈ offered cfg mac i.fw i.checkMac i.frame s, Forwarded cfg mac [i] q := by
  rcases offered_cases cfg mac i s hfit with
    h | ⟨h, hq⟩ | ⟨U, src, dst, id, ps, -, -, h, hq⟩ <;> rw [h]
  · simp
  · simpa using hq
  · simp only [List.mem_map]
    rintro q ⟨p, hp, rfl⟩
    exact hq p hp

/-- One invocation adds to its queue only frames `Forwarded` from it. -/
theorem processEthernet_forwarded (cfg : Config) (mac : Bytes) (i : Invocation) (s : Pipeline)
    (hfit : 28 + cfg.maxUdpPacketSize < 65536) :
    ∀ q ∈ ((processEthernet cfg mac i.fw i.checkMac i.frame).run s).2.queue,
      q ∈ s.queue ∨ Forwarded cfg mac [i] q := by
  intro q hq
  rw [processEthernet_queue, List.mem_append] at hq
  exact hq.imp_right fun h => offered_forwarded cfg mac i s hfit q (List.mem_of_mem_take h)

/-- Over any interleaving of the two directions, every frame in a direction's queue at the end was
in it at the start or is `Forwarded` from an invocation of that direction. -/
theorem firewall_run_forwarded (cfg : Config) (mac : Bytes)
    (hfit : 28 + cfg.maxUdpPacketSize < 65536) :
    ∀ (is : List Invocation) (w : Firewall) (d : Direction) (q : Bytes),
      q ∈ ((w.run cfg mac is).2.lane d).queue →
        q ∈ (w.lane d).queue ∨ Forwarded cfg mac (is.filter fun i => i.dir = d) q
  | [], _, _, _, hq => .inl hq
  | i :: is, w, d, q, hq => by
    have hsub : (is.filter fun i => i.dir = d) ⊆ ((i :: is).filter fun i => i.dir = d) :=
      ((List.sublist_cons_self i is).filter _).subset
    rcases firewall_run_forwarded cfg mac hfit is (w.step cfg mac i).2 d q hq with h | h
    · change q ∈ ((w.step cfg mac i).2.pipeline d).queue at h
      by_cases hd : i.dir = d
      · subst hd
        rw [Firewall.step_pipeline_self] at h
        refine (processEthernet_forwarded cfg mac i _ hfit q h).imp_right fun h => h.mono ?_
        simp
      · rw [Firewall.step_pipeline_other cfg mac w i hd] at h
        exact .inl h
    · exact .inr (h.mono hsub)

/-- From start-up, over any interleaving of the two directions, every frame in a direction's queue
is `Forwarded` from an invocation of that direction. -/
theorem firewall_reachable_forwarded (cfg : Config) (mac : Bytes)
    (hfit : 28 + cfg.maxUdpPacketSize < 65536) (is : List Invocation) (d : Direction) :
    ∀ q ∈ (((Firewall.init cfg).run cfg mac is).2.lane d).queue,
      Forwarded cfg mac (is.filter fun i => i.dir = d) q := fun q hq =>
  (firewall_run_forwarded cfg mac hfit is _ d q hq).resolve_left (by cases d <;> exact List.not_mem_nil q)

/-- `firewall_reachable_forwarded` at the egress queue of `mixedRun`. -/
theorem firewall_reachable_forwarded_mixed :
    28 + Config.small.maxUdpPacketSize < 65536 ∧
      ∀ q ∈ (((Firewall.init Config.small).run Config.small clientMac mixedRun).2.lane .egress).queue,
        Forwarded Config.small clientMac (mixedRun.filter fun i => i.dir = .egress) q :=
  ⟨by decide, firewall_reachable_forwarded Config.small clientMac (by decide) mixedRun .egress⟩

/-- A `Forwarded` frame is an ARP frame, or an IPv4 frame whose packet passes the checks and
carries ICMP, IGMP or UDP. -/
theorem Forwarded.protocol_mem {cfg : Config} {mac : Bytes} {is : List Invocation} {q : Bytes}
    (h : Forwarded cfg mac is q) :
    EthernetFrame.ethertype q = .arp ∨ EthernetFrame.ethertype q = .ipv4 ∧
      ∃ P, (newChecked (EthernetFrame.payload q) >>= shaveCrcFromIpv4) = .ok P ∧
        (protocol P = ipProtocolIcmp ∨ protocol P = ipProtocolIgmp ∨ protocol P = ipProtocolUdp) := by
  cases h with
  | arp _ _ _ he => exact .inl he
  | passThrough _ _ he hP hpr =>
    refine .inr ⟨he, _, hP, ?_⟩
    rcases hpr with (h | h) | h
    · exact .inl h
    · exact .inr (.inl h)
    · simp only [isUdpFragment, Bool.and_eq_true, beq_iff_eq] at h
      exact .inr (.inr h.2)
  | @built i _ _ _ p _ _ _ _ _ hl he _ _ _ _ _ _ hF hp =>
    have hp := hF.headerOk p hp
    have hhdr : (i.frame.take ethernetFramePayload).length = ethernetFramePayload := by simp [hl]
    have het : EthernetFrame.ethertype (i.frame.take ethernetFramePayload) = .ipv4 := by
      rw [EthernetFrame.ethertype, readU16_take _ _ _ (by decide), ← EthernetFrame.ethertype, he]
    refine .inr ⟨by rw [ethertype_append hhdr, het], p, ?_, .inr (.inr hp.protocol_eq)⟩
    rw [EthernetFrame.payload, List.drop_left' hhdr]
    exact hp.checked

/-- From start-up, over any interleaving of the two directions, every frame in a queue is an ARP
frame or an IPv4 frame whose packet passes the length checks and carries ICMP, IGMP or UDP. -/
theorem firewall_reachable_protocols (cfg : Config) (mac : Bytes)
    (hfit : 28 + cfg.maxUdpPacketSize < 65536) (is : List Invocation) (d : Direction) :
    ∀ q ∈ (((Firewall.init cfg).run cfg mac is).2.lane d).queue,
      EthernetFrame.ethertype q = .arp ∨ EthernetFrame.ethertype q = .ipv4 ∧
        ∃ P, (newChecked (EthernetFrame.payload q) >>= shaveCrcFromIpv4) = .ok P ∧
          (protocol P = ipProtocolIcmp ∨ protocol P = ipProtocolIgmp ∨ protocol P = ipProtocolUdp) :=
  fun q hq => ((firewall_run_forwarded cfg mac hfit is _ d q hq).resolve_left
    (by cases d <;> exact List.not_mem_nil q)).protocol_mem

/-- `firewall_reachable_protocols` at the egress queue of `mixedRun`. -/
theorem firewall_reachable_protocols_mixed :
    28 + Config.small.maxUdpPacketSize < 65536 ∧
      ∀ q ∈ (((Firewall.init Config.small).run Config.small clientMac mixedRun).2.lane .egress).queue,
        EthernetFrame.ethertype q = .arp ∨ EthernetFrame.ethertype q = .ipv4 ∧
          ∃ P, (newChecked (EthernetFrame.payload q) >>= shaveCrcFromIpv4) = .ok P ∧
            (protocol P = ipProtocolIcmp ∨ protocol P = ipProtocolIgmp ∨ protocol P = ipProtocolUdp) :=
  ⟨by decide, firewall_reachable_protocols Config.small clientMac (by decide) mixedRun .egress⟩

/-! ## Draining the queues -/

/-- A `Forwarded` frame is an input frame or at most `34 + MTU_UDP` bytes long. -/
theorem Forwarded.length_lt {cfg : Config} {mac : Bytes} {is : List Invocation} {q : Bytes}
    (h : Forwarded cfg mac is q) (hin : ∀ i ∈ is, i.frame.length < cfg.bufferSize)
    (hmtu : 34 + cfg.mtuUdp < cfg.bufferSize) : q.length < cfg.bufferSize := by
  cases h with
  | arp hi => exact hin _ hi
  | passThrough hi => exact hin _ hi
  | built _ _ _ _ _ _ _ _ _ _ hF hp =>
    have hl := hF.payload_length_le _ hp
    rw [List.length_append, List.length_take, (hF.headerOk _ hp).length_eq,
      (hF.headerOk _ hp).totalLen_eq, ethernetFramePayload]
    omega

/-- When every frame given to the firewall was read from a shared buffer, every frame a run from
start-up leaves in a queue fits a shared buffer: `sel4_buffer_insert` copies it without panicking,
and a fetch of the length it returns reads the frame back unchanged. -/
theorem firewall_run_drain (cfg : Config) (mac : Bytes) (hfit : 28 + cfg.maxUdpPacketSize < 65536)
    (hmtu : 34 + cfg.mtuUdp < cfg.bufferSize) (is : List Invocation)
    (hin : ∀ i ∈ is, ∃ len buffer, sel4BufferFetch cfg len buffer = .ok i.frame) (d : Direction)
    (buffer : Nat → UInt8) :
    ∀ q ∈ (((Firewall.init cfg).run cfg mac is).2.lane d).queue,
      ∃ buffer', sel4BufferInsert cfg q buffer = .ok (q.length, buffer') ∧
        sel4BufferFetch cfg q.length buffer' = .ok q := by
  intro q hq
  have hq' := (firewall_run_forwarded cfg mac hfit is _ d q hq).resolve_left
    (by cases d <;> exact List.not_mem_nil q)
  have hlt : q.length < cfg.bufferSize := by
    refine hq'.length_lt (fun i hi => ?_) hmtu
    obtain ⟨len, b, hf⟩ := hin i (List.mem_filter.1 hi).1
    obtain ⟨hl, hlt⟩ := length_of_sel4BufferFetch hf
    omega
  exact ⟨_, sel4BufferInsert_eq_ok hlt buffer, sel4BufferFetch_insert hlt buffer⟩

/-- The frames of `mixedRun`, read from a buffer, leave an egress queue that drains. -/
theorem firewall_run_drain_mixed :
    28 + Config.small.maxUdpPacketSize < 65536 ∧ 34 + Config.small.mtuUdp < Config.small.bufferSize ∧
      (∀ i ∈ mixedRun, ∃ len buffer, sel4BufferFetch Config.small len buffer = .ok i.frame) ∧
      ∀ q ∈ (((Firewall.init Config.small).run Config.small clientMac mixedRun).2.lane .egress).queue,
        ∃ buffer', sel4BufferInsert Config.small q (fun _ => 0) = .ok (q.length, buffer') ∧
          sel4BufferFetch Config.small q.length buffer' = .ok q :=
  have hs : ∀ i ∈ mixedRun, i.frame.length < Config.small.bufferSize := by decide
  have hin : ∀ i ∈ mixedRun, ∃ len buffer, sel4BufferFetch Config.small len buffer = .ok i.frame :=
    fun i hi => ⟨_, _, sel4BufferFetch_insert (hs i hi) fun _ => 0⟩
  ⟨by decide, by decide, hin,
    firewall_run_drain Config.small clientMac (by decide) (by decide) mixedRun hin .egress _⟩

/-! ## How many frames one invocation adds -/

theorem FragmentsOf.length_le_div {mtu : Nat} {U : Bytes} {src dst : Ipv4Address} {id : UInt16}
    {ps : List Bytes} (hF : FragmentsOf mtu U src dst id ps) (hmtu : 0 < mtu) :
    ps.length ≤ U.length / mtu + 1 := by
  obtain ⟨j, hj⟩ : ∃ j, j + 1 = ps.length :=
    ⟨ps.length - 1, by have := List.length_pos.2 hF.ne_nil; omega⟩
  have hj' : j ≤ U.length / mtu := (Nat.le_div_iff_mul_le hmtu).2 (by rw [hF.length_eq hj]; omega)
  omega

theorem offered_length_le (cfg : Config) (mac : Bytes) (i : Invocation) (s : Pipeline)
    (hfit : 28 + cfg.maxUdpPacketSize < 65536) :
    (offered cfg mac i.fw i.checkMac i.frame s).length ≤ (8 + cfg.maxUdpPacketSize) / cfg.mtuUdp + 1 := by
  rcases offered_cases cfg mac i s hfit with h | ⟨h, -⟩ | ⟨U, src, dst, id, ps, hU, hF, h, -⟩ <;>
    rw [h]
  · simp
  · simp
  · calc (ps.map _).length = ps.length := List.length_map _ _
      _ ≤ U.length / cfg.mtuUdp + 1 := hF.length_le_div cfg.mtuUdp_pos
      _ ≤ (8 + cfg.maxUdpPacketSize) / cfg.mtuUdp + 1 := by
        have : U.length / cfg.mtuUdp ≤ (8 + cfg.maxUdpPacketSize) / cfg.mtuUdp := Nat.div_le_div_right hU
        omega

/-- One invocation adds at most `(8 + MAX_UDP_PACKET_SIZE) / MTU_UDP + 1` frames to its queue,
whatever the frame, the policy and the state. -/
theorem processEthernet_queue_length_le (cfg : Config) (mac : Bytes) (fw : Policy) (checkMac : Bool)
    (frame : Bytes) (s : Pipeline) (hfit : 28 + cfg.maxUdpPacketSize < 65536) :
    ((processEthernet cfg mac fw checkMac frame).run s).2.queue.length ≤
      s.queue.length + ((8 + cfg.maxUdpPacketSize) / cfg.mtuUdp + 1) := by
  rw [processEthernet_queue, List.length_append, List.length_take]
  have := offered_length_le cfg mac ⟨.ingress, checkMac, fw, frame⟩ s hfit
  exact Nat.add_le_add_left ((Nat.min_le_right _ _).trans this) _

/-- The longest UDP frame of the round-trip module, through the identity policy. -/
theorem processEthernet_queue_length_le_long :
    28 + Config.small.maxUdpPacketSize < 65536 ∧
      ((processEthernet Config.small clientMac identityPolicy false longUdpFrame).run
          (Pipeline.init Config.small)).2.queue.length ≤
        0 + ((8 + Config.small.maxUdpPacketSize) / Config.small.mtuUdp + 1) :=
  ⟨by decide, processEthernet_queue_length_le _ _ _ _ _ _ (by decide)⟩

/-! ## Failed invocations -/

theorem bind_ne_err {α β : Type} {x : Except Fault α} {g : α → Except Fault β} {e : Error}
    (hx : x ≠ .error (.err e)) (hg : ∀ a, g a ≠ .error (.err e)) : x >>= g ≠ .error (.err e) := by
  cases x with
  | error f => rintro ⟨⟩; exact hx rfl
  | ok a => exact hg a

theorem pure_ne_err {α : Type} (a : α) (e : Error) : (pure a : Except Fault α) ≠ .error (.err e) :=
  nofun

theorem sliceChecked_ne_err (b : Bytes) (lo hi : Nat) (e : Error) :
    sliceChecked b lo hi ≠ .error (.err e) := by
  unfold sliceChecked
  split <;> simp

theorem emitChunk_ne_err (src dst : Ipv4Address) (chunk : Bytes) (e : Error) :
    emitChunk src dst chunk ≠ .error (.err e) := by
  unfold emitChunk
  dsimp only
  split <;> simp

theorem fragmentTail_ne_err (mtu : Nat) (udp : Bytes) (src dst : Ipv4Address) (packetId : UInt16)
    (e : Error) : ∀ fuel start offset remaining,
      fragmentTail mtu udp src dst packetId fuel start offset remaining ≠ .error (.err e)
  | 0, _, _, _ => nofun
  | fuel + 1, start, offset, remaining => by
    rw [fragmentTail]
    split
    · exact bind_ne_err (sliceChecked_ne_err _ _ _ e) fun _ => bind_ne_err (emitChunk_ne_err _ _ _ e)
        fun _ => bind_ne_err (fragmentTail_ne_err mtu udp src dst packetId e fuel _ _ _)
          fun _ => pure_ne_err _ e
    · exact bind_ne_err (sliceChecked_ne_err _ _ _ e) fun _ => bind_ne_err (emitChunk_ne_err _ _ _ e)
        fun _ => pure_ne_err _ e

/-- The fragmenter fails only by panicking. -/
theorem fragmentLargeUdpPacket_ne_err (cfg : Config) (udp : Bytes) (src dst : Ipv4Address)
    (packetId seed : UInt16) (e : Error) :
    (fragmentLargeUdpPacket cfg udp src dst packetId seed).1 ≠ .error (.err e) := by
  unfold fragmentLargeUdpPacket
  split
  · exact bind_ne_err (emitChunk_ne_err _ _ _ e) fun _ => pure_ne_err _ e
  · exact bind_ne_err (sliceChecked_ne_err _ _ _ e) fun _ => bind_ne_err (emitChunk_ne_err _ _ _ e)
      fun _ => bind_ne_err (fragmentTail_ne_err _ _ _ _ _ e _ _ _ _) fun _ => pure_ne_err _ e

/-- `ipv4_packet_buffer` leaves `SEED` alone or gives the fragmenter's answer. -/
theorem ipv4PacketBuffer_cases (cfg : Config) (fw : Policy) (ethPayload : Bytes) (seed : UInt16) :
    (ipv4PacketBuffer cfg fw ethPayload seed).2 = seed ∨
      ∃ U src dst id, ipv4PacketBuffer cfg fw ethPayload seed = fragmentLargeUdpPacket cfg U src dst id seed := by
  unfold ipv4PacketBuffer
  cases liftErr (newChecked ethPayload >>= shaveCrcFromIpv4) with
  | error e => exact .inl rfl
  | ok ipv4Packet =>
    dsimp only
    cases liftErr (Ipv4Repr.parse ipv4Packet) with
    | error e => exact .inl rfl
    | ok ipv4Repr =>
      dsimp only
      split
      · exact .inl rfl
      · split
        · cases processUdp cfg ipv4Repr (payload ipv4Packet) fw with
          | error e => exact .inl rfl
          | ok udpPacket => exact .inr ⟨udpPacket, _, _, _, rfl⟩
        · exact .inl rfl

theorem ethPacketBuffer_ok_of_length {f : Bytes} (hf : ethernetFramePayload ≤ f.length) (ps : List Bytes) :
    ∃ frames, ethPacketBuffer f ps = .ok frames := by
  unfold ethPacketBuffer
  split
  · exact ⟨[f], by rw [EthernetFrame.newChecked_eq_ok f hf]; rfl⟩
  · exact ⟨_, mapM_frames _ ps fun q _ => by simp only [List.length_append, List.length_take]; omega⟩

/-- A `process_ipv4` that returns an `Err` leaves `SEED` alone. -/
theorem processIpv4_err_seed (cfg : Config) (fw : Policy) (f : Bytes) (s : Pipeline) {e : Error}
    (h : ((processIpv4 cfg fw f).run s).1 = .error (.err e)) :
    ((processIpv4 cfg fw f).run s).2.seed = s.seed := by
  rcases hx : (receiveIpv4 cfg f).run s with ⟨r, s₁⟩
  have h₁ : s₁.seed = s.seed := by rw [← receiveIpv4_seed cfg f s, hx]
  cases r with
  | error e' => rw [processIpv4, run_bind_error hx]; exact h₁
  | ok d =>
    rw [processIpv4, run_bind_ok hx, run_processDatagram] at h ⊢
    rw [← h₁]
    cases hb : (ipv4PacketBuffer cfg fw d s₁.seed).1 with
    | ok ps =>
      obtain ⟨frames, hfr⟩ := ethPacketBuffer_ok_of_length (length_of_receiveIpv4 hx) ps
      rw [hb, except_ok_bind, hfr] at h
      cases h
    | error e' =>
      rw [hb] at h
      cases h
      rcases ipv4PacketBuffer_cases cfg fw d s₁.seed with hs | ⟨U, src, dst, id, hU⟩
      · exact hs
      · exact absurd (hU ▸ hb) (fragmentLargeUdpPacket_ne_err cfg U src dst id s₁.seed e)

/-- An invocation that returns an `Err` leaves the queue and `SEED` as they were; unless the frame
reached reassembly, it leaves the whole state as it was. -/
theorem processEthernet_error_confined (cfg : Config) (mac : Bytes) (fw : Policy) (checkMac : Bool)
    (frame : Bytes) (s : Pipeline) {e : Error}
    (h : ((processEthernet cfg mac fw checkMac frame).run s).1 = .error (.err e)) :
    ((processEthernet cfg mac fw checkMac frame).run s).2.queue = s.queue ∧
      ((processEthernet cfg mac fw checkMac frame).run s).2.seed = s.seed ∧
      (reachesReassembly frame = false →
        (processEthernet cfg mac fw checkMac frame).run s = (.error (.err e), s)) := by
  have hqs : ((processEthernet cfg mac fw checkMac frame).run s).2.queue = s.queue ∧
      ((processEthernet cfg mac fw checkMac frame).run s).2.seed = s.seed := by
    rcases (processEthernet_error_iff cfg mac fw checkMac frame s _).1 h with
      ⟨e', hn, -⟩ | ⟨f, hn, hm, het, hx⟩
    · rw [run_processEthernet, hn]
      exact ⟨rfl, rfl⟩
    · obtain ⟨rfl, -⟩ := EthernetFrame.length_of_newChecked hn
      have hq := processIpv4_queue cfg fw f s
      have hs := processIpv4_err_seed cfg fw f s hx
      rw [run_processEthernet, hn]
      dsimp only
      rw [if_pos hm, het]
      rcases hr : (processIpv4 cfg fw f).run s with ⟨r, s₁⟩
      rw [hr] at hx hq hs
      cases hx
      exact ⟨hq, hs⟩
  refine ⟨hqs.1, hqs.2, fun hq => ?_⟩
  obtain ⟨hf, hms⟩ := processEthernet_quiet cfg mac fw checkMac frame s hq
  rcases hx : (processEthernet cfg mac fw checkMac frame).run s with ⟨r, ⟨q, t, sd, m⟩⟩
  rw [hx] at h hqs hf hms
  obtain ⟨hq', hs'⟩ := hqs
  cases h; cases hq'; cases hs'; cases hf; cases hms
  rfl

/-- A TCP segment's IPv4 header from 10.0.0.1 to 10.0.0.2, broadcast. -/
def tcpFrame : Bytes :=
  broadcastHeader ++ fillChecksum [0x45, 0, 0, 20, 0, 0, 0x40, 0, 64, 6, 0, 0, 10, 0, 0, 1, 10, 0, 0, 2]

/-- `process_ethernet` refuses the TCP frame, which does not reach reassembly, and leaves the state
as it was. -/
theorem processEthernet_error_confined_tcp :
    ((processEthernet Config.small clientMac dropPolicy false tcpFrame).run
        (Pipeline.init Config.small)).1 = .error (.err .unrecognized) ∧
      reachesReassembly tcpFrame = false ∧
      (processEthernet Config.small clientMac dropPolicy false tcpFrame).run (Pipeline.init Config.small) =
        (.error (.err .unrecognized), Pipeline.init Config.small) :=
  have h : ((processEthernet Config.small clientMac dropPolicy false tcpFrame).run
      (Pipeline.init Config.small)).1 = .error (.err .unrecognized) := rfl
  have hr : reachesReassembly tcpFrame = false := rfl
  ⟨h, hr, (processEthernet_error_confined _ _ _ _ _ _ h).2.2 hr⟩

end Rustwall
