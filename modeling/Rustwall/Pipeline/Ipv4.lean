import Rustwall.Pipeline.Udp

/-!
# The IPv4 stage

`process_ipv4` reads the IPv4 packet of an Ethernet frame (with `shave_crc_from_ipv4`), sends UDP
fragments to `process_ipv4_fragment`, reparses what it continues with, forwards ICMP and IGMP
unchanged, passes UDP through the policy and the fragmenter, and refuses other protocols.

Its state is that of one direction, the outbound queue and the fragment set, together with the
two counters the whole component shares: `SEED` of `get_pseudorandom_packet_id` and `MS` of
`timestamp`. A Rust `Err` keeps the changes made before it (an entry started, or reset), so the
stage runs in `PipelineM`, an exception monad over the state.
-/

namespace Rustwall

open Ipv4Packet

/-- What one invocation of `process_ethernet` can change. -/
structure Pipeline where
  queue : List Bytes
  fragments : FragmentSet
  seed : UInt16
  ms : Int

/-- A Rust function of one direction's pipeline: `Result<T>` or a panic, over its state. -/
abbrev PipelineM := ExceptT Fault (StateM Pipeline)

/-- The `?` operator on a smoltcp `Result`. -/
def check {α : Type} (x : Except Error α) : PipelineM α :=
  match x with
  | .ok a => pure a
  | .error e => throw (.err e)

/-- A computation that may panic, in the pipeline. -/
def orPanic {α : Type} (x : Except Fault α) : PipelineM α :=
  match x with
  | .ok a => pure a
  | .error f => throw f

/-! ### Running the monad -/

@[simp] theorem run_pure {α : Type} (a : α) (s : Pipeline) :
    (pure a : PipelineM α).run s = (.ok a, s) := rfl

@[simp] theorem run_throw {α : Type} (e : Fault) (s : Pipeline) :
    (throw e : PipelineM α).run s = (.error e, s) := rfl

@[simp] theorem run_get (s : Pipeline) : (get : PipelineM Pipeline).run s = (.ok s, s) := rfl

@[simp] theorem run_set (s s' : Pipeline) : (set s' : PipelineM PUnit).run s = (.ok ⟨⟩, s') := rfl

@[simp] theorem run_modify (f : Pipeline → Pipeline) (s : Pipeline) :
    (modify f : PipelineM PUnit).run s = (.ok ⟨⟩, f s) := rfl

theorem run_bind_ok {α β : Type} {x : PipelineM α} {s s' : Pipeline} {a : α}
    (h : x.run s = (.ok a, s')) (f : α → PipelineM β) : (x >>= f).run s = (f a).run s' := by
  simp only [ExceptT.run, bind, ExceptT.bind, ExceptT.mk, StateT.bind] at h ⊢
  rw [h]; rfl

theorem run_bind_error {α β : Type} {x : PipelineM α} {s s' : Pipeline} {e : Fault}
    (h : x.run s = (.error e, s')) (f : α → PipelineM β) : (x >>= f).run s = (.error e, s') := by
  simp only [ExceptT.run, bind, ExceptT.bind, ExceptT.mk, StateT.bind] at h ⊢
  rw [h]; rfl

@[simp] theorem check_ok {α : Type} (a : α) : check (.ok a) = pure a := rfl

@[simp] theorem check_error {α : Type} (e : Error) : check (.error e : Except Error α) = throw (.err e) :=
  rfl

@[simp] theorem orPanic_ok {α : Type} (a : α) : orPanic (.ok a : Except Fault α) = pure a := rfl

@[simp] theorem orPanic_error {α : Type} (f : Fault) : orPanic (.error f : Except Fault α) = throw f :=
  rfl

/-- An `i64` addition's result, wrapped as a release build does. -/
def wrapI64 (x : Int) : Int := (x + 2 ^ 63) % 2 ^ 64 - 2 ^ 63

/-- `timestamp()`: the static `MS`, incremented, as an `Instant` in milliseconds. -/
def timestamp : PipelineM Int :=
  modifyGet fun s => (wrapI64 (s.ms + 1), { s with ms := wrapI64 (s.ms + 1) })

/-- `shave_crc_from_ipv4`: drop a trailing `ETH_CRC_LEN` bytes when the buffer is exactly that
much longer than the packet's header and payload, and check the packet again. -/
def shaveCrcFromIpv4 (packet : Bytes) : Except Error Bytes :=
  if (payload packet).length + headerLen packet + ethCrcLen = packet.length then
    newChecked (packet.take (packet.length - ethCrcLen))
  else newChecked packet

/-- The key of the entry a fragment belongs to. -/
def fragmentKey (p : Bytes) : FragmentKey := ⟨ident p, srcAddr p, dstAddr p⟩

/-- Lines 684-703: start an empty entry with the fragment's key, and record the datagram's length
when the fragment is the last one. -/
def prepareEntry (p : Bytes) (e : FragmentedPacket) : FragmentedPacket :=
  let e := if e.isEmpty then e.start (fragmentKey p) else e
  if !moreFrags p then e.setTotalLen (fragOffset p + totalLen p) else e

/-- `process_ipv4_fragment(ipv4_packet, timestamp, fragments)` once `get_packet` gave entry `e`:
the result, and the entry as the call leaves it. -/
def processEntry (cfg : Config) (p : Bytes) (ts : Int) (e : FragmentedPacket) :
    Except Error (Option Bytes) × FragmentedPacket :=
  let cap := cfg.maxReassembledFragmentSize
  let e := prepareEntry p e
  match e.add cap (headerLen p) (fragOffset p) (payload p).length p ts with
  | .error _ => (.error .tooManyFragments, e.reset)
  | .ok e =>
    if e.checkContigRange cap then
      match e.front cap with
      | none => (.ok none, e)
      | some front =>
        match newChecked (e.getBuffer 0 front) with
        | .error err => (.error err, e)
        | .ok assembled =>
          let e := e.setBuffer 0 (fillChecksum (setTotalLen assembled (front % 65536)))
          let ret := e.getBuffer 0 front
          (.ok (some ret), e.reset)
    else (.ok none, e)

/-- `process_ipv4_fragment(ipv4_packet, timestamp, fragments)`. -/
def processIpv4Fragment (cfg : Config) (p : Bytes) (ts : Int) (t : FragmentSet) :
    Except Error (Option Bytes) × FragmentSet :=
  match FragmentSet.getPacket cfg t (fragmentKey p) ts with
  | none => (.error .fragmentSetFull, t)
  | some (i, t) =>
    let r := processEntry cfg p ts (t.getD i FragmentedPacket.new)
    (r.1, t.set i r.2)

/-- Whether `process_ipv4` sends a packet to reassembly: a UDP fragment. -/
def isUdpFragment (p : Bytes) : Bool :=
  (moreFrags p || 0 < fragOffset p) && protocol p == ipProtocolUdp

/-- Lines 563-579: the IPv4 bytes the stage continues with, the Ethernet payload or the datagram
`process_ipv4_fragment` reassembled. -/
def reassemble (cfg : Config) (ipv4Packet ethPayload : Bytes) : PipelineM Bytes :=
  if isUdpFragment ipv4Packet then do
    let ts ← timestamp
    let s ← get
    let r := processIpv4Fragment cfg ipv4Packet ts s.fragments
    set { s with fragments := r.2 }
    match r.1 with
    | .ok (some assembled) => pure assembled
    | .ok none => throw (.err .fragmented)
    | .error e => throw (.err e)
  else pure ethPayload

theorem run_reassemble (cfg : Config) (ipv4Packet ethPayload : Bytes) (s : Pipeline) :
    (reassemble cfg ipv4Packet ethPayload).run s =
      if isUdpFragment ipv4Packet then
        let ts := wrapI64 (s.ms + 1)
        let r := processIpv4Fragment cfg ipv4Packet ts s.fragments
        ((match r.1 with
          | .ok (some assembled) => .ok assembled
          | .ok none => .error (.err .fragmented)
          | .error e => .error (.err e)), { s with fragments := r.2, ms := ts })
      else (.ok ethPayload, s) := by
  unfold reassemble
  split
  · rw [run_bind_ok (show timestamp.run s = _ from rfl), run_bind_ok (run_get _),
      run_bind_ok (run_set _ _)]
    dsimp only
    split <;> simp_all
  · rfl

/-- Lines 547-579: check the frame and its IPv4 packet, and give the IPv4 bytes `process_ipv4`
goes on with, the frame's payload or the datagram a UDP fragment completed. -/
def receiveIpv4 (cfg : Config) (ethPacket : Bytes) : PipelineM Bytes := do
  let ethPayload := ethPacket.drop ethernetFramePayload
  let ethFrame ← check (EthernetFrame.newChecked ethPacket)
  let ipv4Packet ← check (newChecked (EthernetFrame.payload ethFrame) >>= shaveCrcFromIpv4)
  reassemble cfg ipv4Packet ethPayload

theorem run_receiveIpv4 (cfg : Config) (ethPacket : Bytes) (s : Pipeline) :
    (receiveIpv4 cfg ethPacket).run s =
      match EthernetFrame.newChecked ethPacket >>= fun f =>
          newChecked (EthernetFrame.payload f) >>= shaveCrcFromIpv4 with
      | .error e => (.error (.err e), s)
      | .ok p => (reassemble cfg p (ethPacket.drop ethernetFramePayload)).run s := by
  unfold receiveIpv4
  cases EthernetFrame.newChecked ethPacket with
  | error e => rfl
  | ok f =>
    simp only [check_ok, pure_bind, except_ok_bind]
    cases newChecked (EthernetFrame.payload f) >>= shaveCrcFromIpv4 <;> rfl

/-- Lines 581-642: parse the datagram, pass ICMP and IGMP through, send UDP through the policy
and the fragmenter, and refuse other protocols. The packets of `ipv4_packet_buffer`, and the
counter `SEED` after them. -/
def ipv4PacketBuffer (cfg : Config) (fw : Policy) (ethPayload : Bytes) (seed : UInt16) :
    Except Fault (List Bytes) × UInt16 :=
  match liftErr (newChecked ethPayload >>= shaveCrcFromIpv4) with
  | .error e => (.error e, seed)
  | .ok ipv4Packet =>
    match liftErr (Ipv4Repr.parse ipv4Packet) with
    | .error e => (.error e, seed)
    | .ok ipv4Repr =>
      if ipv4Repr.protocol = ipProtocolIcmp ∨ ipv4Repr.protocol = ipProtocolIgmp then (.ok [], seed)
      else if ipv4Repr.protocol = ipProtocolUdp then
        match processUdp cfg ipv4Repr (payload ipv4Packet) fw with
        | .error e => (.error e, seed)
        | .ok udpPacket =>
          fragmentLargeUdpPacket cfg udpPacket (srcAddr ipv4Packet) (dstAddr ipv4Packet)
            (ident ipv4Packet) seed
      else (.error (.err .unrecognized), seed)

/-- Lines 644-660: the frame itself when no packet was built, otherwise each packet behind the
frame's Ethernet header. -/
def ethPacketBuffer (ethPacket : Bytes) (ipv4PacketBuffer : List Bytes) : Except Error (List Bytes) :=
  if ipv4PacketBuffer.isEmpty then do
    let frame ← EthernetFrame.newChecked ethPacket
    pure [frame]
  else
    ipv4PacketBuffer.mapM fun ipv4 =>
      EthernetFrame.newChecked (ethPacket.take ethernetFramePayload ++ ipv4)

/-- Lines 581-660, over the counter `SEED`. -/
def processDatagram (cfg : Config) (fw : Policy) (ethPacket ethPayload : Bytes) :
    PipelineM (List Bytes) := do
  let s ← get
  let r := ipv4PacketBuffer cfg fw ethPayload s.seed
  set { s with seed := r.2 }
  let packets ← orPanic r.1
  check (ethPacketBuffer ethPacket packets)

theorem run_processDatagram (cfg : Config) (fw : Policy) (ethPacket ethPayload : Bytes)
    (s : Pipeline) :
    (processDatagram cfg fw ethPacket ethPayload).run s =
      ((ipv4PacketBuffer cfg fw ethPayload s.seed).1 >>= fun ps => liftErr (ethPacketBuffer ethPacket ps),
        { s with seed := (ipv4PacketBuffer cfg fw ethPayload s.seed).2 }) := by
  rw [processDatagram, run_bind_ok (run_get s), run_bind_ok (run_set _ _)]
  cases (ipv4PacketBuffer cfg fw ethPayload s.seed).1 with
  | error e => rfl
  | ok ps =>
    rw [orPanic_ok, pure_bind, except_ok_bind]
    cases ethPacketBuffer ethPacket ps <;> rfl

/-- `process_ipv4(eth_frame, fragment_buffer, external_firewall_fn)`. -/
def processIpv4 (cfg : Config) (fw : Policy) (ethPacket : Bytes) : PipelineM (List Bytes) :=
  receiveIpv4 cfg ethPacket >>= processDatagram cfg fw ethPacket

end Rustwall
