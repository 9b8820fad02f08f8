import Rustwall.Pipeline.Ipv4

/-!
# The Ethernet stage and the two directions

`process_ethernet` checks the frame, drops unicast frames for another address when `check_mac`
is set, enqueues ARP frames unchanged, drops IPv6 and unknown EtherTypes, and enqueues what
`process_ipv4` returns, as long as the queue has room (the `while` loop of lines 335-338).

The firewall runs it for two directions, each with its own queue, fragment set and policy, over
the counters `SEED` and `MS` that both share. `Firewall.step` is one invocation; `Firewall.run` a
sequence of them in any interleaving of the directions.
-/

namespace Rustwall

/-- The loop `while !packets.is_empty() && buffer.len() < MAX_ENQUEUED_PACKETS`. -/
def enqueue (max : Nat) : List Bytes → List Bytes → List Bytes
  | [], q => q
  | p :: ps, q => if q.length < max then enqueue max ps (q ++ [p]) else q

/-- `process_ethernet(frame, packet_buffer, fragment_buffer, external_firewall_fn, check_mac)`,
with `mac` the cached `CLIENT_MAC_ADDRESS`. -/
def processEthernet (cfg : Config) (mac : Bytes) (fw : Policy) (checkMac : Bool) (frame : Bytes) :
    PipelineM Unit := do
  let ethFrame ← check (EthernetFrame.newChecked frame)
  let dst := EthernetFrame.dstAddr ethFrame
  if checkMac && !isBroadcast dst && !isMulticast dst && dst != mac then
    return ()
  match EthernetFrame.ethertype ethFrame with
  | .ipv4 => do
    let packets ← processIpv4 cfg fw ethFrame
    modify fun s => { s with queue := enqueue cfg.maxEnqueuedPackets packets s.queue }
  | .ipv6 => pure ()
  | .arp =>
    modify fun s =>
      if s.queue.length < cfg.maxEnqueuedPackets then { s with queue := s.queue ++ [ethFrame] } else s
  | .unknown _ => pure ()

/-- One direction's own state: its outbound queue (`PACKETS_RX` or `PACKETS_TX`) and fragment set
(`FRAGMENTS_RX` or `FRAGMENTS_TX`). -/
structure Lane where
  queue : List Bytes
  fragments : FragmentSet

/-- The two directions and the counters they share. -/
structure Firewall where
  rx : Lane
  tx : Lane
  seed : UInt16
  ms : Int

/-- Ingress (driver to client) or egress (client to driver). -/
inductive Direction
  | ingress
  | egress
  deriving DecidableEq, Repr

/-- The state after start-up: empty queues, new fragment sets, `SEED = 42` and `MS = 0`. -/
def Firewall.init (cfg : Config) : Firewall :=
  ⟨⟨[], FragmentSet.new cfg⟩, ⟨[], FragmentSet.new cfg⟩, 42, 0⟩

/-- A direction's lane. -/
def Firewall.lane (w : Firewall) : Direction → Lane
  | .ingress => w.rx
  | .egress => w.tx

/-- One invocation: a frame, the `check_mac` flag, and how the direction's policy answers. -/
structure Invocation where
  dir : Direction
  checkMac : Bool
  fw : Policy
  frame : Bytes

/-- `process_ethernet` on one lane with the shared counters. -/
def Lane.process (cfg : Config) (mac : Bytes) (l : Lane) (seed : UInt16) (ms : Int)
    (i : Invocation) : Except Fault Unit × Pipeline :=
  (processEthernet cfg mac i.fw i.checkMac i.frame).run ⟨l.queue, l.fragments, seed, ms⟩

/-- The firewall after one invocation, with the invocation's result. -/
def Firewall.step (cfg : Config) (mac : Bytes) (w : Firewall) (i : Invocation) :
    Except Fault Unit × Firewall :=
  let r := Lane.process cfg mac (w.lane i.dir) w.seed w.ms i
  let l : Lane := ⟨r.2.queue, r.2.fragments⟩
  (r.1, match i.dir with
    | .ingress => ⟨l, w.tx, r.2.seed, r.2.ms⟩
    | .egress => ⟨w.rx, l, r.2.seed, r.2.ms⟩)

/-- The results of a sequence of invocations, and the firewall after them. -/
def Firewall.run (cfg : Config) (mac : Bytes) (w : Firewall) :
    List Invocation → List (Except Fault Unit) × Firewall
  | [] => ([], w)
  | i :: is =>
    let r := w.step cfg mac i
    let rest := r.2.run cfg mac is
    (r.1 :: rest.1, rest.2)

end Rustwall
