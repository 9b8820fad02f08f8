import Rustwall.Pipeline.Ethernet

/-!
# The outbound queue is a bounded FIFO

`process_ethernet` touches its direction's queue only at the end: an ARP frame is pushed when the
queue has room, and the frames `process_ipv4` returned are pushed by the loop of lines 335-338
until either side is exhausted. `enqueue_eq` says what the loop computes, the first
`MAX_ENQUEUED_PACKETS - |q|` frames appended to `q`, and `run_processEthernet` what one invocation
does, every branch at once. From them:

* one invocation appends to the queue a prefix of the frames it offers (`offered`), as long as
  there is room, and fails exactly when the frame or `process_ipv4` fails
  (`processEthernet_queue`, `processEthernet_error_iff`);
* over any run of invocations and drains, where a drain is the boundary glue taking the oldest
  frames across, the queue never grows past its capacity, and the frames that left and those still
  queued are, in order, those the invocations admitted (`queueRun_fifo`).
-/

namespace Rustwall

/-! ## One invocation -/

/-- The enqueue loop appends the first `max - |q|` frames to `q`. -/
theorem enqueue_eq (max : Nat) : ∀ (ps q : List Bytes), enqueue max ps q = q ++ ps.take (max - q.length)
  | [], q => by simp [enqueue]
  | p :: ps, q => by
    rw [enqueue]
    split
    case isTrue h =>
      obtain ⟨k, hk⟩ : ∃ k, max - q.length = k + 1 := ⟨max - q.length - 1, by omega⟩
      rw [enqueue_eq max ps (q ++ [p]), hk, List.take_succ_cons, List.length_append, List.length_singleton,
        show max - (q.length + 1) = k by omega, List.append_assoc, List.singleton_append]
    case isFalse h => rw [show max - q.length = 0 by omega, List.take_zero, List.append_nil]

/-- The enqueue loop appends every packet when the queue has room for all of them. -/
theorem enqueue_eq_append (max : Nat) (ps q : List Bytes) (h : q.length + ps.length ≤ max) :
    enqueue max ps q = q ++ ps := by
  rw [enqueue_eq, List.take_of_length_le (by omega)]

/-- `process_ipv4` leaves the queue alone. -/
theorem processIpv4_queue (cfg : Config) (fw : Policy) (f : Bytes) (s : Pipeline) :
    ((processIpv4 cfg fw f).run s).2.queue = s.queue := by
  have hr : ((receiveIpv4 cfg f).run s).2.queue = s.queue := by
    rw [run_receiveIpv4]
    split
    · rfl
    · rw [run_reassemble]; split <;> rfl
  rcases hx : (receiveIpv4 cfg f).run s with ⟨r, s₁⟩
  rw [hx] at hr
  cases r with
  | error e => rw [processIpv4, run_bind_error hx]; exact hr
  | ok dg => rw [processIpv4, run_bind_ok hx, run_processDatagram]; exact hr

/-- Whether the MAC filter of `process_ethernet` lets the frame `f` through: `check_mac` is off, or
the destination is broadcast, multicast or `mac`. -/
def macPasses (mac : Bytes) (checkMac : Bool) (f : Bytes) : Bool :=
  let dst := EthernetFrame.dstAddr f
  !(checkMac && !isBroadcast dst && !isMulticast dst && dst != mac)

/-- Every branch of `process_ethernet`. -/
theorem run_processEthernet (cfg : Config) (mac : Bytes) (fw : Policy) (checkMac : Bool)
    (frame : Bytes) (s : Pipeline) :
    (processEthernet cfg mac fw checkMac frame).run s =
      match EthernetFrame.newChecked frame with
      | .error e => (.error (.err e), s)
      | .ok f =>
        if macPasses mac checkMac f then
          match EthernetFrame.ethertype f with
          | .ipv4 =>
            match (processIpv4 cfg fw f).run s with
            | (.ok ps, s₁) => (.ok (), { s₁ with queue := enqueue cfg.maxEnqueuedPackets ps s₁.queue })
            | (.error e, s₁) => (.error e, s₁)
          | .arp =>
            (.ok (), if s.queue.length < cfg.maxEnqueuedPackets then { s with queue := s.queue ++ [f] }
              else s)
          | _ => (.ok (), s)
        else (.ok (), s) := by
  unfold processEthernet
  cases EthernetFrame.newChecked frame with
  | error e => rfl
  | ok f =>
    simp only [check_ok, pure_bind, macPasses]
    by_cases hc : (checkMac && !isBroadcast (EthernetFrame.dstAddr f) &&
      !isMulticast (EthernetFrame.dstAddr f) && EthernetFrame.dstAddr f != mac) = true
    case pos => rw [if_pos hc, if_neg (by simp only [hc]; decide)]; rfl
    case neg =>
      rw [if_neg hc, if_pos (by rw [Bool.eq_false_iff.2 hc]; rfl)]
      cases EthernetFrame.ethertype f with
      | ipv4 =>
        rcases hx : (processIpv4 cfg fw f).run s with ⟨r, s₁⟩
        cases r with
        | error e => exact run_bind_error hx _
        | ok ps => rw [run_bind_ok hx, run_modify]
      | arp => rfl
      | ipv6 => rfl
      | unknown _ => rfl

/-- The frames an invocation of `process_ethernet` offers its queue: the frame itself for an ARP
frame that passes the MAC filter, what `process_ipv4` returned for an IPv4 frame that passes it
when that call succeeds, and nothing otherwise. -/
def offered (cfg : Config) (mac : Bytes) (fw : Policy) (checkMac : Bool) (frame : Bytes)
    (s : Pipeline) : List Bytes :=
  match EthernetFrame.newChecked frame with
  | .error _ => []
  | .ok f =>
    if macPasses mac checkMac f then
      match EthernetFrame.ethertype f with
      | .ipv4 =>
        match ((processIpv4 cfg fw f).run s).1 with
        | .ok ps => ps
        | .error _ => []
      | .arp => [f]
      | _ => []
    else []

/-- One invocation appends the frames it offers while the queue has room, and drops the rest. -/
theorem processEthernet_queue (cfg : Config) (mac : Bytes) (fw : Policy) (checkMac : Bool)
    (frame : Bytes) (s : Pipeline) :
    ((processEthernet cfg mac fw checkMac frame).run s).2.queue =
      s.queue ++ (offered cfg mac fw checkMac frame s).take (cfg.maxEnqueuedPackets - s.queue.length) := by
  rw [run_processEthernet, offered]
  cases EthernetFrame.newChecked frame with
  | error e => simp
  | ok f =>
    dsimp only
    split
    case isFalse => simp
    case isTrue =>
      cases EthernetFrame.ethertype f with
      | ipv4 =>
        rcases hx : (processIpv4 cfg fw f).run s with ⟨r, s₁⟩
        have hq : s₁.queue = s.queue := by simpa [hx] using processIpv4_queue cfg fw f s
        cases r with
        | error e => simpa using hq
        | ok ps => simp only [enqueue_eq, hq]
      | arp =>
        dsimp only
        split
        case isTrue h =>
          rw [List.take_of_length_le (by simp; omega)]
        case isFalse h => simp [show cfg.maxEnqueuedPackets - s.queue.length = 0 by omega]
      | ipv6 => simp
      | unknown _ => simp

/-- An invocation fails exactly when the frame is refused or `process_ipv4` fails. -/
theorem processEthernet_error_iff (cfg : Config) (mac : Bytes) (fw : Policy) (checkMac : Bool)
    (frame : Bytes) (s : Pipeline) (e : Fault) :
    ((processEthernet cfg mac fw checkMac frame).run s).1 = .error e ↔
      (∃ e', EthernetFrame.newChecked frame = .error e' ∧ e = .err e') ∨
        ∃ f, EthernetFrame.newChecked frame = .ok f ∧ macPasses mac checkMac f = true ∧
          EthernetFrame.ethertype f = .ipv4 ∧ ((processIpv4 cfg fw f).run s).1 = .error e := by
  rw [run_processEthernet]
  cases EthernetFrame.newChecked frame with
  | error e' => simpa using eq_comm
  | ok f =>
    dsimp only
    split
    case isFalse h => simp [h]
    case isTrue h =>
      cases hty : EthernetFrame.ethertype f
      case ipv4 =>
        rcases hx : (processIpv4 cfg fw f).run s with ⟨r, s₁⟩
        cases r <;> simp [h, hx, hty]
      all_goals simp [hty]

/-! ## Runs with drains -/

/-- What happens to a direction's queue: `process_ethernet` on a frame, or the boundary glue taking
the `n` oldest frames across. -/
inductive QueueEvent
  | invoke (checkMac : Bool) (fw : Policy) (frame : Bytes)
  | drain (n : Nat)

/-- One event: the frames it takes out of the queue, and the state after it. -/
def QueueEvent.apply (cfg : Config) (mac : Bytes) : QueueEvent → Pipeline → List Bytes × Pipeline
  | .invoke checkMac fw frame, s => ([], ((processEthernet cfg mac fw checkMac frame).run s).2)
  | .drain n, s => (s.queue.take n, { s with queue := s.queue.drop n })

/-- A run of events: the frames taken out, in order, and the state after the run. -/
def queueRun (cfg : Config) (mac : Bytes) : Pipeline → List QueueEvent → List Bytes × Pipeline
  | s, [] => ([], s)
  | s, ev :: evs =>
    let r := ev.apply cfg mac s
    let rest := queueRun cfg mac r.2 evs
    (r.1 ++ rest.1, rest.2)

/-- The frames an event adds to the queue: of the frames an invocation offers, as many as the
queue has room for; nothing for a drain. -/
def QueueEvent.admits (cfg : Config) (mac : Bytes) : QueueEvent → Pipeline → List Bytes
  | .invoke checkMac fw frame, s =>
    (offered cfg mac fw checkMac frame s).take (cfg.maxEnqueuedPackets - s.queue.length)
  | .drain _, _ => []

/-- The frames the events of a run admit, in order. -/
def admitted (cfg : Config) (mac : Bytes) : Pipeline → List QueueEvent → List Bytes
  | _, [] => []
  | s, ev :: evs => ev.admits cfg mac s ++ admitted cfg mac (ev.apply cfg mac s).2 evs

/-- One event keeps the queue within its capacity (or its initial length, if that was more), and
moves frames only at the two ends: admitted ones in at the back, drained ones out at the front. -/
theorem QueueEvent.apply_queue (cfg : Config) (mac : Bytes) (ev : QueueEvent) (s : Pipeline) :
    (ev.apply cfg mac s).2.queue.length ≤ max cfg.maxEnqueuedPackets s.queue.length ∧
      s.queue ++ ev.admits cfg mac s = (ev.apply cfg mac s).1 ++ (ev.apply cfg mac s).2.queue := by
  cases ev with
  | invoke checkMac fw frame =>
    simp only [apply, admits, processEthernet_queue, List.nil_append, List.length_append,
      List.length_take, and_true]
    omega
  | drain n =>
    simp only [apply, admits, List.append_nil, List.take_append_drop, List.length_drop]
    exact ⟨by omega, trivial⟩

/-- Over a run, the queue stays within its capacity, and what left it followed by what is still in
it is what it held followed by what the run admitted. -/
theorem queueRun_fifo (cfg : Config) (mac : Bytes) :
    ∀ (evs : List QueueEvent) (s : Pipeline),
      (queueRun cfg mac s evs).2.queue.length ≤ max cfg.maxEnqueuedPackets s.queue.length ∧
        s.queue ++ admitted cfg mac s evs = (queueRun cfg mac s evs).1 ++ (queueRun cfg mac s evs).2.queue
  | [], s => by simp [queueRun, admitted]
  | ev :: evs, s => by
    obtain ⟨hlen, hstep⟩ := ev.apply_queue cfg mac s
    obtain ⟨hlen', hrun⟩ := queueRun_fifo cfg mac evs (ev.apply cfg mac s).2
    refine ⟨by simp only [queueRun]; omega, ?_⟩
    rw [admitted, ← List.append_assoc, hstep, List.append_assoc, hrun, queueRun, List.append_assoc]

/-- The bounded FIFO law of the outbound queue: one invocation of `process_ethernet` appends, of
the frames it offers, as many as fit, and fails exactly when the frame or `process_ipv4` fails;
over any run of invocations and drains, the queue never outgrows its capacity (unless it started
fuller), and the frames drained and still queued are, in order, those the invocations admitted. -/
theorem processEthernet_bounded_fifo (cfg : Config) (mac : Bytes) :
    (∀ (fw : Policy) (checkMac : Bool) (frame : Bytes) (s : Pipeline),
      ((processEthernet cfg mac fw checkMac frame).run s).2.queue =
          s.queue ++ (offered cfg mac fw checkMac frame s).take (cfg.maxEnqueuedPackets - s.queue.length) ∧
        ∀ e, ((processEthernet cfg mac fw checkMac frame).run s).1 = .error e ↔
          (∃ e', EthernetFrame.newChecked frame = .error e' ∧ e = .err e') ∨
            ∃ f, EthernetFrame.newChecked frame = .ok f ∧ macPasses mac checkMac f = true ∧
              EthernetFrame.ethertype f = .ipv4 ∧ ((processIpv4 cfg fw f).run s).1 = .error e) ∧
      ∀ (evs : List QueueEvent) (s : Pipeline),
        (queueRun cfg mac s evs).2.queue.length ≤ max cfg.maxEnqueuedPackets s.queue.length ∧
          s.queue ++ admitted cfg mac s evs =
            (queueRun cfg mac s evs).1 ++ (queueRun cfg mac s evs).2.queue :=
  ⟨fun fw checkMac frame s => ⟨processEthernet_queue cfg mac fw checkMac frame s,
    processEthernet_error_iff cfg mac fw checkMac frame s⟩, queueRun_fifo cfg mac⟩

end Rustwall
