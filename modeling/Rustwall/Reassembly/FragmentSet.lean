import Rustwall.Config

/-!
# The reassembly table

`process_ipv4_fragment` drives the `FragmentSet` and `FragmentedPacket` types of the smoltcp fork
the firewall links; their code is not among the sources, so they are modelled from the spec
(§3 "FragmentEntry", §4.2), through the calls `utils.rs` makes on them:

* an entry holds a buffer of `MAX_REASSEMBLED_FRAGMENT_SIZE` bytes, the key it was started with,
  the byte ranges filled since then, the total length once the last fragment is seen, and the
  time it was last touched; `reset` forgets all of these but leaves the buffer's bytes;
* `add header_len offset payload_len data` places the fragment in datagram coordinates: the
  first fragment (offset 0) with its header at byte 0, a later one's payload after its own header
  length, `header_len + offset`; overlapping bytes are overwritten (last writer wins) and a
  fragment past the buffer is refused;
* `check_contig_range` holds when the filled ranges cover `[0, total_len)`, and `front` is the
  length of the filled prefix;
* `get_packet` returns the entry holding the key, else an empty entry, else a stale one (reset
  first), else nothing.
-/

namespace Rustwall

/-- Modelled from the spec: the key of a reassembly entry, `(ident, src_addr, dst_addr)`. -/
structure FragmentKey where
  ident : UInt16
  srcAddr : Ipv4Address
  dstAddr : Ipv4Address
  deriving DecidableEq, Repr

/-- The key of a reset entry. -/
def FragmentKey.default : FragmentKey := ⟨0, ⟨0, 0, 0, 0⟩, ⟨0, 0, 0, 0⟩⟩

/-- Modelled from the spec: smoltcp's `FragmentedPacket`, one reassembly entry. -/
structure FragmentedPacket where
  buffer : Nat → UInt8
  filled : List (Nat × Nat)
  totalLen : Option Nat
  key : FragmentKey
  lastUpdated : Int
  started : Bool

/-- A direction's reassembly table. -/
abbrev FragmentSet := List FragmentedPacket

namespace FragmentedPacket

/-- Modelled from the spec: `FragmentedPacket::new(vec![0; MAX_REASSEMBLED_FRAGMENT_SIZE])`. -/
def new : FragmentedPacket := ⟨fun _ => 0, [], none, FragmentKey.default, 0, false⟩

/-- Modelled from the spec: `is_empty()`, not started since the last reset. -/
def isEmpty (e : FragmentedPacket) : Bool := !e.started

/-- Modelled from the spec: `start(id, src, dst)`. -/
def start (e : FragmentedPacket) (k : FragmentKey) : FragmentedPacket :=
  { e with key := k, started := true }

/-- Modelled from the spec: `reset()`. The buffer's bytes stay as they are. -/
def reset (e : FragmentedPacket) : FragmentedPacket :=
  { e with filled := [], totalLen := none, key := FragmentKey.default, lastUpdated := 0,
           started := false }

/-- Modelled from the spec: `set_total_len(len)`. -/
def setTotalLen (e : FragmentedPacket) (n : Nat) : FragmentedPacket := { e with totalLen := some n }

/-- Whether byte `i` lies in a filled range. -/
def covered (e : FragmentedPacket) (i : Nat) : Bool := e.filled.any fun r => r.1 ≤ i && i < r.2

/-- The first byte from `i` on, at most `n` bytes ahead, that no filled range covers. -/
def firstGap (e : FragmentedPacket) : Nat → Nat → Nat
  | 0, i => i
  | n + 1, i => if e.covered i then e.firstGap n (i + 1) else i

/-- Modelled from the spec: the length of the filled prefix of a buffer of `cap` bytes. -/
def frontLen (e : FragmentedPacket) (cap : Nat) : Nat := e.firstGap cap 0

/-- Modelled from the spec: `front()`, the filled prefix when there is one. -/
def front (e : FragmentedPacket) (cap : Nat) : Option Nat :=
  if e.frontLen cap = 0 then none else some (e.frontLen cap)

/-- Modelled from the spec: `check_contig_range()`, the filled ranges cover `[0, total_len)`. -/
def checkContigRange (e : FragmentedPacket) (cap : Nat) : Bool :=
  match e.totalLen with
  | some t => t ≤ e.frontLen cap
  | none => false

/-- The first and last datagram byte `add` writes for a fragment. -/
def addRange (headerLen offset payloadLen : Nat) : Nat × Nat :=
  (if offset = 0 then 0 else headerLen + offset, headerLen + offset + payloadLen)

/-- Modelled from the spec: `add(header_len, offset, payload_len, data, timestamp)` into a buffer
of `cap` bytes. Datagram byte `p` of the fragment is `data[p - offset]`. -/
def add (e : FragmentedPacket) (cap headerLen offset payloadLen : Nat) (data : Bytes) (ts : Int) :
    Except Unit FragmentedPacket :=
  let r := addRange headerLen offset payloadLen
  if cap < r.2 then .error ()
  else .ok { e with
    buffer := fun p => if r.1 ≤ p ∧ p < r.2 then data.getD (p - offset) 0 else e.buffer p
    filled := e.filled ++ [r]
    lastUpdated := ts }

/-- Modelled from the spec: `get_buffer(lo, hi)`. -/
def getBuffer (e : FragmentedPacket) (lo hi : Nat) : Bytes := (List.range (hi - lo)).map fun i => e.buffer (lo + i)

/-- Modelled from the spec: writing `bytes` through `get_buffer_mut(lo, ..)`. -/
def setBuffer (e : FragmentedPacket) (lo : Nat) (bytes : Bytes) : FragmentedPacket :=
  { e with buffer := fun p => if lo ≤ p ∧ p < lo + bytes.length then bytes.getD (p - lo) 0 else e.buffer p }

end FragmentedPacket

namespace FragmentSet

/-- Modelled from the spec: the table built at start-up, `SUPPORTED_FRAGMENTS` new entries. -/
def new (cfg : Config) : FragmentSet := List.replicate cfg.supportedFragments FragmentedPacket.new

/-- Whether an entry was last touched more than `FRAGMENT_TIMEOUT` ticks before `ts`. -/
def stale (cfg : Config) (ts : Int) (e : FragmentedPacket) : Bool := cfg.fragmentTimeout < ts - e.lastUpdated

/-- Modelled from the spec: `get_packet(id, src, dst, timestamp)`, the index of the entry to use
and the table with a reused stale entry reset. -/
def getPacket (cfg : Config) (t : FragmentSet) (k : FragmentKey) (ts : Int) :
    Option (Nat × FragmentSet) :=
  match t.findIdx? (fun e => e.started && e.key == k) with
  | some i => some (i, t)
  | none =>
    match t.findIdx? FragmentedPacket.isEmpty with
    | some i => some (i, t)
    | none =>
      match t.findIdx? (stale cfg ts) with
      | some i => some (i, t.modify FragmentedPacket.reset i)
      | none => none

end FragmentSet

end Rustwall
