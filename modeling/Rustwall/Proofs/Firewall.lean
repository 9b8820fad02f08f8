import Rustwall.Proofs.Udp
import Rustwall.Proofs.Reassembly

/-!
# The firewall over whole runs

What one invocation of `process_ethernet` can change, and what that gives over runs of the two
directions.

* The counter `SEED` reaches only the identification of the fragments the invocation builds,
  and with it their header checksum: whatever `SEED` holds, the outputs agree frame by frame,
  ARP frames and frames passed through exactly, fragments up to those two fields (`FrameAgree`,
  `processEthernet_similar`).
* The fragment set and the counter `MS` change only when the frame's IPv4 packet passes the
  length checks and is a UDP fragment (`reachesReassembly`, `processEthernet_quiet`). Neither the
  header checksum nor the version is looked at before the fragment is added.
* The frames `process_ipv4` returns are the frame itself, for an ICMP or IGMP datagram, or
  the fragments of the UDP packet a policy call accepted (`processIpv4_frames`); the datagram is
  the one the invocation ends with, which for a fragment is the reassembled one.

Over runs, the directions share only the two counters; `firewall_run_similar` is the
simulation between a run and the run of one direction's invocations alone.
-/

namespace Rustwall

open Ipv4Packet

/-! ## What the counter `SEED` reaches -/

/-- Two packets of one datagram's output under two values of `SEED`: the same packet, or two
fragments built from one emitted chunk, at one offset and flag, under two identifications. -/
inductive PacketAgree : Bytes → Bytes → Prop
  | same (p : Bytes) : PacketAgree p p
  | fragment {src dst : Ipv4Address} {chunk p : Bytes} (v w : UInt16) (off : Nat) (more : Bool) :
      emitChunk src dst chunk = .ok p →
      PacketAgree (fragmentFields p v off more) (fragmentFields p w off more)

/-- Two queued frames under two values of `SEED`: the same frame, or one IPv4 Ethernet header
ahead of two fragments that `fragment_large_udp_packet` built from one chunk and that differ in
the identification and, with it, the header checksum. An ARP frame or a frame passed through
agrees only with itself. -/
inductive FrameAgree : Bytes → Bytes → Prop
  | same (f : Bytes) : FrameAgree f f
  | fragment {hdr chunk p : Bytes} {src dst : Ipv4Address} (v w : UInt16) (off : Nat) (more : Bool) :
      hdr.length = ethernetFramePayload → EthernetFrame.ethertype hdr = .ipv4 →
      emitChunk src dst chunk = .ok p →
      FrameAgree (hdr ++ fragmentFields p v off more) (hdr ++ fragmentFields p w off more)

theorem PacketAgree.frame {hdr a b : Bytes} (hhdr : hdr.length = ethernetFramePayload)
    (heth : EthernetFrame.ethertype hdr = .ipv4) : PacketAgree a b → FrameAgree (hdr ++ a) (hdr ++ b)
  | .same _ => .same _
  | .fragment v w off more hp => .fragment v w off more hhdr heth hp

theorem forall₂_frameAgree_refl (q : List Bytes) : List.Forall₂ FrameAgree q q :=
  List.forall₂_same.2 fun f _ => .same f

/-- Two results of one call that differ at most as `R` allows: the same error, or values related
by `R`. -/
def ResultRel {ε α : Type} (R : α → α → Prop) : Except ε α → Except ε α → Prop
  | .error e, .error e' => e = e'
  | .ok a, .ok b => R a b
  | _, _ => False

theorem ResultRel.refl {ε α : Type} {R : α → α → Prop} (hR : ∀ a, R a a) :
    ∀ x : Except ε α, ResultRel R x x
  | .error _ => rfl
  | .ok a => hR a

theorem ResultRel.bind {ε α β : Type} {R : α → α → Prop} {S : β → β → Prop} {x y : Except ε α}
    {f g : α → Except ε β} (h : ResultRel R x y) (hfg : ∀ a b, R a b → ResultRel S (f a) (g b)) :
    ResultRel S (x >>= f) (y >>= g) := by
  cases x <;> cases y
  · exact h
  · cases h
  · cases h
  · exact hfg _ _ h

theorem ResultRel.liftErr {α : Type} {R : α → α → Prop} {x y : Except Error α}
    (h : ResultRel R x y) : ResultRel R (Rustwall.liftErr x) (Rustwall.liftErr y) := by
  cases x <;> cases y
  · exact congrArg Fault.err h
  · cases h
  · cases h
  · exact h

/-- The results of one call that agree are the same error or both succeed. -/
theorem ResultRel.eq_error {ε α : Type} {R : α → α → Prop} {x y : Except ε α} {e : ε}
    (h : ResultRel R x y) (hx : x = .error e) : y = .error e := by
  subst hx
  cases y
  · exact congrArg _ h.symm
  · cases h

theorem fragmentTail_agree (mtu : Nat) (udp : Bytes) (src dst : Ipv4Address) (v w : UInt16) :
    ∀ fuel start offset remaining,
      ResultRel (List.Forall₂ PacketAgree) (fragmentTail mtu udp src dst v fuel start offset remaining)
        (fragmentTail mtu udp src dst w fuel start offset remaining)
  | 0, _, _, _ => List.Forall₂.nil
  | fuel + 1, start, offset, remaining => by
    simp only [fragmentTail]
    split
    · cases sliceChecked udp (start + mtu) (start + mtu + mtu) with
      | error e => exact rfl
      | ok chunk =>
        simp only [except_ok_bind]
        cases hp : emitChunk src dst chunk with
        | error e => exact rfl
        | ok q =>
          exact (fragmentTail_agree mtu udp src dst v w fuel _ _ _).bind fun _ _ h =>
            .cons (.fragment v w _ true hp) h
    · cases sliceChecked udp (start + mtu) udp.length with
      | error e => exact rfl
      | ok chunk =>
        simp only [except_ok_bind]
        cases hp : emitChunk src dst chunk with
        | error e => exact rfl
        | ok q => exact .cons (.fragment v w _ false hp) .nil

/-- The counter reaches only the identification of the fragments the fragmenter builds. -/
theorem fragmentLargeUdpPacket_agree (cfg : Config) (udp : Bytes) (src dst : Ipv4Address)
    (packetId seed seed' : UInt16) :
    ResultRel (List.Forall₂ PacketAgree) (fragmentLargeUdpPacket cfg udp src dst packetId seed).1
      (fragmentLargeUdpPacket cfg udp src dst packetId seed').1 := by
  unfold fragmentLargeUdpPacket
  split
  · exact ResultRel.refl (fun ps => List.forall₂_same.2 fun p _ => .same p) _
  · dsimp only
    cases sliceChecked udp 0 cfg.mtuUdp with
    | error e => exact rfl
    | ok chunk =>
      simp only [except_ok_bind]
      cases hp : emitChunk src dst chunk with
      | error e => exact rfl
      | ok q =>
        exact (fragmentTail_agree _ _ _ _ _ _ _ _ _ _).bind fun _ _ h =>
          .cons (.fragment _ _ 0 true hp) h

theorem ipv4PacketBuffer_agree (cfg : Config) (fw : Policy) (ethPayload : Bytes)
    (seed seed' : UInt16) :
    ResultRel (List.Forall₂ PacketAgree) (ipv4PacketBuffer cfg fw ethPayload seed).1
      (ipv4PacketBuffer cfg fw ethPayload seed').1 := by
  unfold ipv4PacketBuffer
  cases liftErr (newChecked ethPayload >>= shaveCrcFromIpv4) with
  | error e => exact rfl
  | ok ipv4Packet =>
    dsimp only
    cases liftErr (Ipv4Repr.parse ipv4Packet) with
    | error e => exact rfl
    | ok ipv4Repr =>
      dsimp only
      split
      · exact .nil
      · split
        · cases processUdp cfg ipv4Repr (payload ipv4Packet) fw with
          | error e => exact rfl
          | ok udpPacket => exact fragmentLargeUdpPacket_agree _ _ _ _ _ _ _
        · exact rfl

theorem ethPacketBuffer_agree {f : Bytes} (hf : ethernetFramePayload ≤ f.length)
    (heth : EthernetFrame.ethertype f = .ipv4) {ps qs : List Bytes} (h : List.Forall₂ PacketAgree ps qs) :
    ResultRel (List.Forall₂ FrameAgree) (ethPacketBuffer f ps) (ethPacketBuffer f qs) := by
  have hhdr : (f.take ethernetFramePayload).length = ethernetFramePayload := by simp [hf]
  have heth' : EthernetFrame.ethertype (f.take ethernetFramePayload) = .ipv4 := by
    rw [EthernetFrame.ethertype, readU16_take _ _ _ (by decide)]; exact heth
  have hframes : ∀ rs : List Bytes, ∀ r ∈ rs, ethernetFramePayload ≤ (f.take ethernetFramePayload ++ r).length :=
    fun _ _ _ => by simp [hf]
  unfold ethPacketBuffer
  cases h with
  | nil => exact ResultRel.refl forall₂_frameAgree_refl _
  | cons hab hrest =>
    simp only [List.isEmpty_cons, Bool.false_eq_true, if_false, mapM_frames _ _ (hframes _)]
    exact List.forall₂_map_left_iff.2 (List.forall₂_map_right_iff.2
      ((List.Forall₂.cons hab hrest).imp fun _ _ => PacketAgree.frame hhdr heth'))

/-! ## One invocation -/

/-- Two states of a direction that differ at most in the counter `SEED` and in the
identification and header checksum of the queued frames the fragmenter built. -/
structure Pipeline.Similar (s t : Pipeline) : Prop where
  queue : List.Forall₂ FrameAgree s.queue t.queue
  fragments : s.fragments = t.fragments
  ms : s.ms = t.ms

theorem Pipeline.Similar.refl (s : Pipeline) : s.Similar s := ⟨forall₂_frameAgree_refl _, rfl, rfl⟩

section Similar

variable (cfg : Config) (fw : Policy) {s t : Pipeline}

theorem receiveIpv4_similar (f : Bytes) (h : s.Similar t) :
    ((receiveIpv4 cfg f).run s).1 = ((receiveIpv4 cfg f).run t).1 ∧
      ((receiveIpv4 cfg f).run s).2.Similar ((receiveIpv4 cfg f).run t).2 := by
  rw [run_receiveIpv4, run_receiveIpv4]
  split
  · exact ⟨rfl, h⟩
  · rw [run_reassemble, run_reassemble]
    split
    · rw [h.ms, h.fragments]
      exact ⟨rfl, h.queue, rfl, rfl⟩
    · exact ⟨rfl, h⟩

theorem processDatagram_similar {f : Bytes} (hf : ethernetFramePayload ≤ f.length)
    (heth : EthernetFrame.ethertype f = .ipv4) (ep : Bytes) (h : s.Similar t) :
    ResultRel (List.Forall₂ FrameAgree) ((processDatagram cfg fw f ep).run s).1
        ((processDatagram cfg fw f ep).run t).1 ∧
      ((processDatagram cfg fw f ep).run s).2.Similar ((processDatagram cfg fw f ep).run t).2 := by
  rw [run_processDatagram, run_processDatagram]
  exact ⟨(ipv4PacketBuffer_agree cfg fw ep s.seed t.seed).bind fun _ _ hps =>
    (ethPacketBuffer_agree hf heth hps).liftErr, h.queue, h.fragments, h.ms⟩

theorem processIpv4_similar {f : Bytes} (hf : ethernetFramePayload ≤ f.length)
    (heth : EthernetFrame.ethertype f = .ipv4) (h : s.Similar t) :
    ResultRel (List.Forall₂ FrameAgree) ((processIpv4 cfg fw f).run s).1 ((processIpv4 cfg fw f).run t).1 ∧
      ((processIpv4 cfg fw f).run s).2.Similar ((processIpv4 cfg fw f).run t).2 := by
  obtain ⟨hr, hs⟩ := receiveIpv4_similar cfg f h
  revert hr hs
  rcases hx : (receiveIpv4 cfg f).run s with ⟨r, s₁⟩
  rcases hy : (receiveIpv4 cfg f).run t with ⟨r', t₁⟩
  rintro (rfl : r = r') (hs : s₁.Similar t₁)
  cases r with
  | error e => rw [processIpv4, run_bind_error hx, run_bind_error hy]; exact ⟨rfl, hs⟩
  | ok d =>
    rw [processIpv4, run_bind_ok hx, run_bind_ok hy]
    exact processDatagram_similar cfg fw hf heth _ hs

/-- The enqueue loop keeps queues that agree frame by frame in agreement. -/
theorem enqueue_agree {R : Bytes → Bytes → Prop} (max : Nat) {ps ps' : List Bytes}
    (hp : List.Forall₂ R ps ps') : ∀ {q q' : List Bytes}, List.Forall₂ R q q' →
      List.Forall₂ R (enqueue max ps q) (enqueue max ps' q') := by
  induction hp with
  | nil => exact id
  | cons hab _ ih =>
    intro q q' hq
    simp only [enqueue, hq.length_eq]
    split
    · exact ih (List.rel_append hq (.cons hab .nil))
    · exact hq

theorem EthernetFrame.length_of_newChecked {frame f : Bytes} (h : EthernetFrame.newChecked frame = .ok f) :
    f = frame ∧ ethernetFramePayload ≤ f.length := by
  unfold EthernetFrame.newChecked at h
  split at h
  · cases h
  · cases h; exact ⟨rfl, by omega⟩

/-- From states that differ at most in `SEED` and in the identifications of queued fragments,
`process_ethernet` returns the same result and leaves states that differ at most in the same way. -/
theorem processEthernet_similar (mac : Bytes) (checkMac : Bool) (frame : Bytes) (h : s.Similar t) :
    ((processEthernet cfg mac fw checkMac frame).run s).1 =
        ((processEthernet cfg mac fw checkMac frame).run t).1 ∧
      ((processEthernet cfg mac fw checkMac frame).run s).2.Similar
        ((processEthernet cfg mac fw checkMac frame).run t).2 := by
  unfold processEthernet
  cases hn : EthernetFrame.newChecked frame with
  | error e => exact ⟨rfl, h⟩
  | ok f =>
    have hf := (EthernetFrame.length_of_newChecked hn).2
    simp only [check_ok, pure_bind]
    split
    · exact ⟨rfl, h⟩
    · split
      next heth =>
        obtain ⟨hr, hs⟩ := processIpv4_similar cfg fw hf heth h
        revert hr hs
        rcases hx : (processIpv4 cfg fw f).run s with ⟨r, s₁⟩
        rcases hy : (processIpv4 cfg fw f).run t with ⟨r', t₁⟩
        intro hr hs
        cases r with
        | error e =>
          obtain rfl : r' = .error e := hr.eq_error rfl
          rw [run_bind_error hx, run_bind_error hy]; exact ⟨rfl, hs⟩
        | ok ps =>
          cases r' with
          | error e => cases hr
          | ok ps' =>
            rw [run_bind_ok hx, run_bind_ok hy, run_modify, run_modify]
            exact ⟨rfl, enqueue_agree _ hr hs.queue, hs.fragments, hs.ms⟩
      · exact ⟨rfl, h⟩
      · rw [run_modify, run_modify]
        refine ⟨rfl, ?_⟩
        dsimp only
        rw [h.queue.length_eq]
        split
        · exact ⟨List.rel_append h.queue (.cons (.same _) .nil), h.fragments, h.ms⟩
        · exact h
      · exact ⟨rfl, h⟩

end Similar

/-! ## The fragment set and `MS` -/

/-- Whether `process_ethernet` can hand the frame's IPv4 packet to `process_ipv4_fragment`: an
IPv4 frame whose packet passes the length checks and is a UDP fragment. -/
def reachesReassembly (frame : Bytes) : Bool :=
  EthernetFrame.ethertype frame == .ipv4 &&
    match newChecked (EthernetFrame.payload frame) >>= shaveCrcFromIpv4 with
    | .ok p => isUdpFragment p
    | .error _ => false

/-- `process_ipv4` leaves the fragment set and `MS` as the reading of the frame left them. -/
theorem processIpv4_fragments_ms (cfg : Config) (fw : Policy) (f : Bytes) (s : Pipeline) :
    ((processIpv4 cfg fw f).run s).2.fragments = ((receiveIpv4 cfg f).run s).2.fragments ∧
      ((processIpv4 cfg fw f).run s).2.ms = ((receiveIpv4 cfg f).run s).2.ms := by
  rcases hx : (receiveIpv4 cfg f).run s with ⟨r, s₁⟩
  cases r with
  | error e => rw [processIpv4, run_bind_error hx]; exact ⟨rfl, rfl⟩
  | ok d => rw [processIpv4, run_bind_ok hx, run_processDatagram]; exact ⟨rfl, rfl⟩

theorem receiveIpv4_quiet (cfg : Config) {f : Bytes} (hf : EthernetFrame.newChecked f = .ok f)
    (hq : ∀ p, (newChecked (EthernetFrame.payload f) >>= shaveCrcFromIpv4) = .ok p →
      isUdpFragment p = false) (s : Pipeline) :
    ((receiveIpv4 cfg f).run s).2 = s := by
  rw [run_receiveIpv4, hf, except_ok_bind]
  split
  · rfl
  next p hp => rw [run_reassemble, if_neg (by rw [hq p hp]; decide)]

/-- Only a frame that reaches reassembly changes the fragment set or the counter `MS`. -/
theorem processEthernet_quiet (cfg : Config) (mac : Bytes) (fw : Policy) (checkMac : Bool)
    (frame : Bytes) (s : Pipeline) (hq : reachesReassembly frame = false) :
    ((processEthernet cfg mac fw checkMac frame).run s).2.fragments = s.fragments ∧
      ((processEthernet cfg mac fw checkMac frame).run s).2.ms = s.ms := by
  unfold processEthernet
  cases hn : EthernetFrame.newChecked frame with
  | error e => exact ⟨rfl, rfl⟩
  | ok f =>
    obtain ⟨rfl, -⟩ := EthernetFrame.length_of_newChecked hn
    simp only [check_ok, pure_bind]
    split
    · exact ⟨rfl, rfl⟩
    · split
      next heth =>
        have hrecv := receiveIpv4_quiet cfg hn (fun p hp => by
          simpa [reachesReassembly, heth, hp] using hq) s
        have hs := processIpv4_fragments_ms cfg fw f s
        rw [hrecv] at hs
        rcases hx : (processIpv4 cfg fw f).run s with ⟨r, s₁⟩
        rw [hx] at hs
        cases r with
        | error e => rw [run_bind_error hx]; exact hs
        | ok ps => rw [run_bind_ok hx, run_modify]; exact hs
      · exact ⟨rfl, rfl⟩
      · rw [run_modify]; split <;> exact ⟨rfl, rfl⟩
      · exact ⟨rfl, rfl⟩

/-- The Ethernet header of a broadcast IPv4 frame from 02:00:00:00:00:01. -/
def broadcastHeader : Bytes := [255, 255, 255, 255, 255, 255, 2, 0, 0, 0, 0, 1, 8, 0]

/-- The client's address, 02:00:00:00:00:02. -/
def clientMac : Bytes := [2, 0, 0, 0, 0, 2]

/-- The first fragment (MF set, offset 0) of a UDP datagram from 10.0.0.1 port 1234 to 10.0.0.2
port 53 with identification `id`: a 20-byte header whose checksum field is 0, then eight bytes. -/
def firstFragment (id : UInt8) : Bytes :=
  [0x45, 0, 0, 28, 0, id, 0x20, 0, 64, 17, 0, 0, 10, 0, 0, 1, 10, 0, 0, 2, 4, 210, 0, 53, 0, 16, 0, 0]

/-- A fragment whose header checksum fails starts an entry of the fragment set and fills its
first 28 bytes. -/
theorem processEthernet_adds_bad_checksum :
    verifyChecksum (firstFragment 7) = false ∧
      ∃ s, (processEthernet Config.small clientMac dropPolicy false (broadcastHeader ++ firstFragment 7)).run
          (Pipeline.init Config.small) = (.error (.err .fragmented), s) ∧
        (s.fragments.getD 0 FragmentedPacket.new).started = true ∧
        (s.fragments.getD 0 FragmentedPacket.new).filled = [(0, 28)] :=
  ⟨rfl, _, rfl, rfl, rfl⟩

/-! ## What `process_ipv4` returns -/

theorem mapM_newChecked (pre : Bytes) : ∀ (ps : List Bytes) {frames : List Bytes},
    (ps.mapM fun q => EthernetFrame.newChecked (pre ++ q)) = .ok frames → frames = ps.map (pre ++ ·)
  | [], _, h => (Except.ok.inj h).symm
  | q :: ps, frames, h => by
    rw [List.mapM_cons] at h
    cases hq : EthernetFrame.newChecked (pre ++ q) with
    | error e => rw [hq] at h; cases h
    | ok a =>
      rw [hq, except_ok_bind] at h
      cases hps : ps.mapM fun q => EthernetFrame.newChecked (pre ++ q) with
      | error e => rw [hps] at h; cases h
      | ok as =>
        rw [hps, except_ok_bind] at h
        rw [← Except.ok.inj h, (EthernetFrame.length_of_newChecked hq).1, mapM_newChecked pre ps hps]
        rfl

theorem ethPacketBuffer_ok {f : Bytes} {ps frames : List Bytes} (h : ethPacketBuffer f ps = .ok frames) :
    ps = [] ∧ frames = [f] ∨ ps ≠ [] ∧ frames = ps.map (f.take ethernetFramePayload ++ ·) := by
  unfold ethPacketBuffer at h
  split at h
  next hp =>
    obtain ⟨g, hf, h⟩ := except_bind_eq_ok h
    rw [← Except.ok.inj h, (EthernetFrame.length_of_newChecked hf).1]
    exact .inl ⟨List.isEmpty_iff.mp hp, rfl⟩
  next hp => exact .inr ⟨fun h => hp (List.isEmpty_iff.mpr h), mapM_newChecked _ ps h⟩

/-- `process_udp` returns a packet only after a policy call that accepted it. -/
theorem processUdp_accepted {cfg : Config} {repr : Ipv4Repr} {u : Bytes} {fw : Policy} {U : Bytes}
    (h : processUdp cfg repr u fw = .ok U) :
    0 < (fw (policyCall cfg repr u)).ret ∧ (fw (policyCall cfg repr u)).ret.toNat ≤ cfg.maxUdpPacketSize := by
  unfold processUdp at h
  obtain ⟨u', hu, h⟩ := except_bind_eq_ok h
  obtain ⟨ur, -, h⟩ := except_bind_eq_ok h
  rw [UdpPacket.eq_of_newChecked (liftErr_eq_ok.mp hu)] at h
  dsimp only at h
  split at h
  · cases h
  split at h
  · assumption
  · cases h

theorem fragmentLargeUdpPacket_ne_nil {cfg : Config} {udp : Bytes} {src dst : Ipv4Address}
    {packetId seed : UInt16} {ps : List Bytes}
    (h : (fragmentLargeUdpPacket cfg udp src dst packetId seed).1 = .ok ps) : ps ≠ [] := by
  unfold fragmentLargeUdpPacket at h
  split at h
  · obtain ⟨p, -, h⟩ := except_bind_eq_ok h
    rw [← Except.ok.inj h]
    exact List.cons_ne_nil _ _
  · obtain ⟨c, -, h⟩ := except_bind_eq_ok h
    obtain ⟨p, -, h⟩ := except_bind_eq_ok h
    obtain ⟨rest, -, h⟩ := except_bind_eq_ok h
    rw [← Except.ok.inj h]
    exact List.cons_ne_nil _ _

/-- The frames `process_ipv4` returns. The datagram it goes on with is the frame's IPv4 packet or
the one a fragment completed; when that datagram is ICMP or IGMP the frame itself is returned,
and when it is UDP, the frame's Ethernet header in front of each fragment of the packet
`process_udp` rebuilt after a policy call, made in this invocation, that accepted it. -/
theorem processIpv4_frames (cfg : Config) (fw : Policy) (f : Bytes) (s : Pipeline)
    {frames : List Bytes} (h : ((processIpv4 cfg fw f).run s).1 = .ok frames) :
    ∃ d s₁ P repr, (receiveIpv4 cfg f).run s = (.ok d, s₁) ∧
      (newChecked d >>= shaveCrcFromIpv4) = .ok P ∧ Ipv4Repr.parse P = .ok repr ∧
      ((repr.protocol = ipProtocolIcmp ∨ repr.protocol = ipProtocolIgmp) ∧ frames = [f] ∨
        repr.protocol = ipProtocolUdp ∧ ∃ U ps, processUdp cfg repr (payload P) fw = .ok U ∧
          0 < (fw (policyCall cfg repr (payload P))).ret ∧
          (fw (policyCall cfg repr (payload P))).ret.toNat ≤ cfg.maxUdpPacketSize ∧
          (fragmentLargeUdpPacket cfg U (srcAddr P) (dstAddr P) (ident P) s₁.seed).1 = .ok ps ∧
          frames = ps.map (f.take ethernetFramePayload ++ ·)) := by
  rcases hx : (receiveIpv4 cfg f).run s with ⟨r, s₁⟩
  cases r with
  | error e => rw [processIpv4, run_bind_error hx] at h; cases h
  | ok d =>
    rw [processIpv4, run_bind_ok hx, run_processDatagram] at h
    unfold ipv4PacketBuffer at h
    cases hP : newChecked d >>= shaveCrcFromIpv4 with
    | error e => simp only [hP, liftErr_error, except_error_bind, reduceCtorEq] at h
    | ok P =>
      cases hr : Ipv4Repr.parse P with
      | error e => simp only [hP, hr, liftErr_ok, liftErr_error, except_error_bind, reduceCtorEq] at h
      | ok repr =>
        simp only [hP, hr, liftErr_ok] at h
        refine ⟨d, s₁, P, repr, rfl, hP, hr, ?_⟩
        split at h
        next hicmp =>
          rw [except_ok_bind] at h
          cases hb : ethPacketBuffer f [] with
          | error e => rw [hb] at h; cases h
          | ok fs =>
            rw [hb, liftErr_ok] at h
            rcases ethPacketBuffer_ok hb with ⟨-, rfl⟩ | ⟨hne, -⟩
            · exact .inl ⟨hicmp, (Except.ok.inj h).symm⟩
            · exact absurd rfl hne
        next hicmp =>
          split at h
          next hudp =>
            cases hU : processUdp cfg repr (payload P) fw with
            | error e => simp only [hU, except_error_bind, reduceCtorEq] at h
            | ok U =>
              simp only [hU] at h
              cases hps : (fragmentLargeUdpPacket cfg U (srcAddr P) (dstAddr P) (ident P) s₁.seed).1 with
              | error e => simp only [hps, except_error_bind, reduceCtorEq] at h
              | ok ps =>
                rw [hps, except_ok_bind] at h
                cases hb : ethPacketBuffer f ps with
                | error e => rw [hb] at h; cases h
                | ok fs =>
                  rw [hb, liftErr_ok] at h
                  obtain ⟨hacc, hmax⟩ := processUdp_accepted hU
                  refine .inr ⟨hudp, U, ps, rfl, hacc, hmax, hps, ?_⟩
                  rcases ethPacketBuffer_ok hb with ⟨rfl, -⟩ | ⟨-, rfl⟩
                  · exact absurd rfl (fragmentLargeUdpPacket_ne_nil hps)
                  · exact (Except.ok.inj h).symm
          next => simp only [except_error_bind, reduceCtorEq] at h

/-- The last fragment of the datagram `firstFragment 7` starts, with offset 8 and a header length
field of 0: its 20 bytes land on bytes 8 to 27 of the datagram, over the protocol field, which
becomes ICMP. Its own header checksum is not filled. -/
def smugglingFragment : Bytes :=
  [0x40, 1, 0, 20, 0, 7, 0, 1, 64, 17, 0, 0, 10, 0, 0, 1, 10, 0, 0, 2]

/-- The frame that completes the datagram is forwarded as it is, although its own IPv4 packet
fails Ipv4Repr::parse and says UDP, and the policy drops every UDP packet. -/
theorem processEthernet_forwards_smuggling_fragment :
    Ipv4Repr.parse smugglingFragment = .error .checksum ∧ protocol smugglingFragment = ipProtocolUdp ∧
      ∃ s₁, (processEthernet Config.small clientMac dropPolicy false
          (broadcastHeader ++ fillChecksum (firstFragment 7))).run (Pipeline.init Config.small) =
          (.error (.err .fragmented), s₁) ∧
        ∃ s₂, (processEthernet Config.small clientMac dropPolicy false
            (broadcastHeader ++ smugglingFragment)).run s₁ = (.ok (), s₂) ∧
          s₂.queue = [broadcastHeader ++ smugglingFragment] :=
  ⟨rfl, rfl, _, rfl, _, rfl, rfl⟩

/-! ## The counter `SEED` -/

theorem receiveIpv4_seed (cfg : Config) (f : Bytes) (s : Pipeline) :
    ((receiveIpv4 cfg f).run s).2.seed = s.seed := by
  rw [run_receiveIpv4]
  split
  · rfl
  · rw [run_reassemble]; split <;> rfl

theorem toNat_iterate_getPseudorandomPacketId (n : Nat) (seed : UInt16) :
    (getPseudorandomPacketId^[n] seed).toNat = (seed.toNat + n) % 65536 := by
  induction n with
  | zero => have := seed.toNat_lt; simp only [Function.iterate_zero_apply]; omega
  | succ n ih =>
    rw [Function.iterate_succ_apply', getPseudorandomPacketId, UInt16.toNat_add, ih,
      show (1 : UInt16).toNat = 1 from rfl, show UInt16.size = 65536 from rfl]
    omega

/-- The frame of a datagram with identification 0 carrying `sampleUdpPacket`, which at 16 bytes
`Config.small` cuts into two fragments. -/
def idZeroFrame : Bytes :=
  broadcastHeader ++ fillChecksum ([0x45, 0, 0, 36, 0, 0, 0, 0, 64, 17, 0, 0, 10, 0, 0, 1, 10, 0, 0, 2] ++
    sampleUdpPacket)

/-- The 65493rd draw from the initial 42 leaves `SEED` at 65535. The next datagram fragmented
with identification 0 draws again, and `SEED + 1` leaves the range of a `u16`: a release build
wraps it to 0, which both fragments then carry. -/
theorem processEthernet_seed_overflow :
    (getPseudorandomPacketId^[65493] 42).toNat = 65535 ∧
      (getPseudorandomPacketId 65535).toNat ≠ (65535 : UInt16).toNat + 1 ∧
      ∃ s, (processEthernet Config.small clientMac identityPolicy false idZeroFrame).run
          ⟨[], FragmentSet.new Config.small, 65535, 0⟩ = (.ok (), s) ∧
        s.seed = getPseudorandomPacketId 65535 ∧
        s.queue.map (fun q => ident (q.drop ethernetFramePayload)) = [0, 0] :=
  ⟨by rw [toNat_iterate_getPseudorandomPacketId]; rfl, by decide, _, rfl, rfl, rfl⟩

/-! ## Runs of the two directions -/

/-- The state `process_ethernet` runs on for direction `d`: its lane and the shared counters. -/
def Firewall.pipeline (w : Firewall) (d : Direction) : Pipeline :=
  ⟨(w.lane d).queue, (w.lane d).fragments, w.seed, w.ms⟩

section Steps

variable (cfg : Config) (mac : Bytes) (w : Firewall) (i : Invocation)

theorem Firewall.step_fst :
    (w.step cfg mac i).1 = ((processEthernet cfg mac i.fw i.checkMac i.frame).run (w.pipeline i.dir)).1 :=
  rfl

theorem Firewall.step_pipeline_self :
    (w.step cfg mac i).2.pipeline i.dir =
      ((processEthernet cfg mac i.fw i.checkMac i.frame).run (w.pipeline i.dir)).2 := by
  obtain ⟨dir, checkMac, fw, frame⟩ := i
  cases dir <;> rfl

/-- An invocation of the other direction changes only the counters. -/
theorem Firewall.step_pipeline_other {d : Direction} (h : i.dir ≠ d) :
    (w.step cfg mac i).2.pipeline d =
      { w.pipeline d with
        seed := ((processEthernet cfg mac i.fw i.checkMac i.frame).run (w.pipeline i.dir)).2.seed
        ms := ((processEthernet cfg mac i.fw i.checkMac i.frame).run (w.pipeline i.dir)).2.ms } := by
  obtain ⟨dir, checkMac, fw, frame⟩ := i
  cases dir <;> cases d <;> first | rfl | exact absurd rfl h

end Steps

/-- Runs from states whose lane `d` and `MS` agree, up to `SEED` and the identifications of
queued frames, one over any interleaving whose invocations of the other direction never reach
reassembly, the other over its invocations of direction `d` alone: they give those invocations
the same results and end in lanes `d` that agree in the same way. -/
theorem firewall_run_similar (cfg : Config) (mac : Bytes) (d : Direction) :
    ∀ (is : List Invocation) {w v : Firewall},
      (∀ i ∈ is, i.dir ≠ d → reachesReassembly i.frame = false) →
      (w.pipeline d).Similar (v.pipeline d) →
      ((is.zip (w.run cfg mac is).1).filter fun x => x.1.dir = d).map Prod.snd =
          (v.run cfg mac (is.filter fun i => i.dir = d)).1 ∧
        ((w.run cfg mac is).2.pipeline d).Similar ((v.run cfg mac (is.filter fun i => i.dir = d)).2.pipeline d)
  | [], _, _, _, h => ⟨rfl, h⟩
  | i :: is, w, v, hq, h => by
    have hq' : ∀ j ∈ is, j.dir ≠ d → reachesReassembly j.frame = false :=
      fun j hj => hq j (List.mem_cons_of_mem _ hj)
    by_cases hd : i.dir = d
    · subst hd
      obtain ⟨hr, hs⟩ := processEthernet_similar cfg i.fw mac i.checkMac i.frame h
      rw [← Firewall.step_fst, ← Firewall.step_fst, ← Firewall.step_pipeline_self,
        ← Firewall.step_pipeline_self] at *
      obtain ⟨ih₁, ih₂⟩ := firewall_run_similar cfg mac i.dir is hq' hs
      simp only [Firewall.run, List.zip_cons_cons, List.filter_cons, decide_True, if_true,
        List.map_cons]
      exact ⟨by rw [hr, ih₁], ih₂⟩
    · have hs : ((w.step cfg mac i).2.pipeline d).Similar (v.pipeline d) := by
        rw [Firewall.step_pipeline_other cfg mac w i hd]
        exact ⟨h.queue, h.fragments,
          (processEthernet_quiet cfg mac i.fw i.checkMac i.frame _ (hq i (List.mem_cons_self _ _) hd)).2.trans
            h.ms⟩
      obtain ⟨ih₁, ih₂⟩ := firewall_run_similar cfg mac d is hq' hs
      simp only [Firewall.run, List.zip_cons_cons, List.filter_cons, hd, decide_False]
      exact ⟨ih₁, ih₂⟩

theorem firewall_directions_independent (cfg : Config) (mac : Bytes) (d : Direction) (w : Firewall)
    (is : List Invocation) (hquiet : ∀ i ∈ is, i.dir ≠ d → reachesReassembly i.frame = false) :
    ((is.zip (w.run cfg mac is).1).filter fun x => x.1.dir = d).map Prod.snd =
        (w.run cfg mac (is.filter fun i => i.dir = d)).1 ∧
      ((w.run cfg mac is).2.lane d).fragments =
        ((w.run cfg mac (is.filter fun i => i.dir = d)).2.lane d).fragments ∧
      List.Forall₂ FrameAgree ((w.run cfg mac is).2.lane d).queue
        ((w.run cfg mac (is.filter fun i => i.dir = d)).2.lane d).queue := by
  obtain ⟨h₁, h₂⟩ := firewall_run_similar cfg mac d is hquiet (Pipeline.Similar.refl _)
  exact ⟨h₁, h₂.fragments, h₂.queue⟩

/-- An ARP request from 10.0.0.9 for 10.0.0.1, broadcast by 02:00:00:00:00:09. -/
def arpRequest : Bytes :=
  [255, 255, 255, 255, 255, 255, 2, 0, 0, 0, 0, 9, 8, 6, 0, 1, 8, 0, 6, 4, 0, 1,
    2, 0, 0, 0, 0, 9, 10, 0, 0, 9, 0, 0, 0, 0, 0, 0, 10, 0, 0, 1]

/-- Ingress fragments of two datagrams with an egress ARP request between them. -/
def mixedRun : List Invocation :=
  [⟨.ingress, false, dropPolicy, broadcastHeader ++ fillChecksum (firstFragment 1)⟩,
    ⟨.egress, false, dropPolicy, arpRequest⟩,
    ⟨.ingress, false, dropPolicy, broadcastHeader ++ fillChecksum (firstFragment 2)⟩]

theorem firewall_directions_independent_mixed :
    (∀ i ∈ mixedRun, i.dir ≠ .ingress → reachesReassembly i.frame = false) ∧
      ((mixedRun.zip ((Firewall.init Config.small).run Config.small clientMac mixedRun).1).filter
          fun x => x.1.dir = .ingress).map Prod.snd =
        ((Firewall.init Config.small).run Config.small clientMac
          (mixedRun.filter fun i => i.dir = .ingress)).1 ∧
      (((Firewall.init Config.small).run Config.small clientMac mixedRun).2.lane .ingress).fragments =
        (((Firewall.init Config.small).run Config.small clientMac
          (mixedRun.filter fun i => i.dir = .ingress)).2.lane .ingress).fragments ∧
      List.Forall₂ FrameAgree
        (((Firewall.init Config.small).run Config.small clientMac mixedRun).2.lane .ingress).queue
        (((Firewall.init Config.small).run Config.small clientMac
          (mixedRun.filter fun i => i.dir = .ingress)).2.lane .ingress).queue :=
  ⟨by decide, firewall_directions_independent Config.small clientMac .ingress _ mixedRun (by decide)⟩

/-- Two ingress fragments fill the two entries of `Config.small`; an egress fragment advances
`MS` before a third. -/
def stalenessRun : List Invocation :=
  [⟨.ingress, false, dropPolicy, broadcastHeader ++ fillChecksum (firstFragment 1)⟩,
    ⟨.ingress, false, dropPolicy, broadcastHeader ++ fillChecksum (firstFragment 2)⟩,
    ⟨.egress, false, dropPolicy, broadcastHeader ++ fillChecksum (firstFragment 9)⟩,
    ⟨.ingress, false, dropPolicy, broadcastHeader ++ fillChecksum (firstFragment 3)⟩]

set_option maxRecDepth 1200 in
/-- With the egress fragment, the third ingress fragment finds the first entry stale and reuses
it; without it, the ingress fragment set is full. -/
theorem firewall_egress_fragment_changes_ingress :
    ((Firewall.init Config.small).run Config.small clientMac stalenessRun).1 =
        [.error (.err .fragmented), .error (.err .fragmented), .error (.err .fragmented),
          .error (.err .fragmented)] ∧
      ((Firewall.init Config.small).run Config.small clientMac
          (stalenessRun.filter fun i => i.dir = .ingress)).1 =
        [.error (.err .fragmented), .error (.err .fragmented), .error (.err .fragmentSetFull)] :=
  ⟨rfl, rfl⟩

end Rustwall
