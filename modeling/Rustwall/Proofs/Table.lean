import Rustwall.Proofs.RoundTrip

/-!
# The reassembly tables over runs

Each direction keeps a table of `SUPPORTED_FRAGMENTS` reassembly entries, each with a buffer of
`MAX_REASSEMBLED_FRAGMENT_SIZE` bytes. `FragmentSet.Wf` collects what every table a run reaches
satisfies, and this module proves it from start-up over any interleaving of the two directions.

* `FragmentedPacket.InBuffer`: an entry's filled ranges end inside its buffer and no byte past the
  buffer was ever written. `add` refuses a range that ends past it, and the completed datagram
  written back over the buffer's front is no longer than the filled prefix.
* `FragmentSet.Wf`: the table has `SUPPORTED_FRAGMENTS` entries, no two started entries share a
  key (`KeysUnique`), an entry that is not started holds nothing (`Clean`), and every entry is
  `InBuffer`.
* `FragmentSet.Wf.processIpv4Fragment`, `FragmentSet.Wf.processEthernet`: one call keeps it, and
  `firewall_reachable_table_wf`: every run from `Firewall.init` keeps it in both directions.
* `processIpv4Fragment_fragmentSetFull`: a fragment is refused for lack of room exactly when every
  entry holds another datagram that is not stale, and the table is then left as it was.
* `firewall_run_ms`: the clock `MS` the tables age by advances once for each invocation, of
  either direction, that passes the MAC filter and reaches reassembly, and at no other.
-/

namespace Rustwall

open Ipv4Packet FragmentedPacket

/-! ## Entries inside their buffer -/

/-- The entry's filled ranges end by byte `cap`, and no byte from `cap` on was written. -/
structure FragmentedPacket.InBuffer (cap : Nat) (e : FragmentedPacket) : Prop where
  filled_le : ∀ r ∈ e.filled, r.2 ≤ cap
  buffer_eq : ∀ q, cap ≤ q → e.buffer q = 0

namespace FragmentedPacket.InBuffer

variable {cap : Nat} {e : FragmentedPacket}

theorem new : FragmentedPacket.new.InBuffer cap := ⟨nofun, fun _ _ => rfl⟩

theorem reset (h : e.InBuffer cap) : e.reset.InBuffer cap := ⟨nofun, h.buffer_eq⟩

theorem prepareEntry (h : e.InBuffer cap) (p : Bytes) : (Rustwall.prepareEntry p e).InBuffer cap := by
  unfold Rustwall.prepareEntry
  dsimp only
  split_ifs <;> exact ⟨h.filled_le, h.buffer_eq⟩

theorem add {hl off pl : Nat} {data : Bytes} {ts : Int} {e' : FragmentedPacket} (h : e.InBuffer cap)
    (ha : e.add cap hl off pl data ts = .ok e') : e'.InBuffer cap := by
  obtain ⟨hr, -, -, hf, hb⟩ := add_eq_ok ha
  constructor
  · rw [hf]
    intro r hr'
    rcases List.mem_append.1 hr' with hr' | hr'
    · exact h.filled_le r hr'
    · rw [List.mem_singleton.1 hr']; exact hr
  · intro q hq
    rw [hb, if_neg (by omega)]
    exact h.buffer_eq q hq

theorem setBuffer {bytes : Bytes} (h : e.InBuffer cap) (hb : bytes.length ≤ cap) :
    (e.setBuffer 0 bytes).InBuffer cap := by
  refine ⟨h.filled_le, fun q hq => ?_⟩
  simp only [FragmentedPacket.setBuffer]
  rw [if_neg (by omega)]
  exact h.buffer_eq q hq

/-- `process_ipv4_fragment` keeps its entry inside the buffer: the completed datagram it writes
back is no longer than the filled prefix. -/
theorem processEntry {cfg : Config} {p : Bytes} {ts : Int}
    (h : e.InBuffer cfg.maxReassembledFragmentSize) :
    (Rustwall.processEntry cfg p ts e).2.InBuffer cfg.maxReassembledFragmentSize := by
  have hp := h.prepareEntry p
  unfold Rustwall.processEntry
  dsimp only
  split
  · exact hp.reset
  next e' ha =>
    have h' := hp.add ha
    split
    · split
      · exact h'
      next front hf =>
        split
        · exact h'
        next assembled hA =>
          refine (h'.setBuffer ?_).reset
          rw [length_fillChecksum, Ipv4Packet.setTotalLen, length_writeU16, eq_of_newChecked hA,
            length_getBuffer]
          exact (Nat.sub_le _ _).trans (front_le hf)
    · exact h'

end FragmentedPacket.InBuffer

/-! ## The table invariant -/

/-- What every table of a run satisfies: `SUPPORTED_FRAGMENTS` entries, distinct keys among the
started ones, nothing held by the others, and every entry inside its buffer. -/
structure FragmentSet.Wf (cfg : Config) (t : FragmentSet) : Prop where
  length_eq : t.length = cfg.supportedFragments
  keysUnique : KeysUnique t
  clean : t.Clean
  inBuffer : ∀ j, (t.getD j FragmentedPacket.new).InBuffer cfg.maxReassembledFragmentSize

theorem wf_new (cfg : Config) : (FragmentSet.new cfg).Wf cfg where
  length_eq := List.length_replicate _ _
  keysUnique := keysUnique_new cfg
  clean := clean_new cfg
  inBuffer j := by rw [getD_fragmentSet_new]; exact InBuffer.new

theorem length_processIpv4Fragment (cfg : Config) (p : Bytes) (ts : Int) (t : FragmentSet) :
    (processIpv4Fragment cfg p ts t).2.length = t.length := by
  unfold processIpv4Fragment
  split
  · rfl
  next i t' hg => rw [List.length_set]; exact (getPacket_spec hg).2.1

theorem inBuffer_processIpv4Fragment {cfg : Config} {p : Bytes} {ts : Int} {t : FragmentSet}
    (h : ∀ j, (t.getD j FragmentedPacket.new).InBuffer cfg.maxReassembledFragmentSize) :
    ∀ j, ((processIpv4Fragment cfg p ts t).2.getD j FragmentedPacket.new).InBuffer
      cfg.maxReassembledFragmentSize := by
  unfold processIpv4Fragment
  split
  · exact h
  next i t' hg =>
    have h' : ∀ j, (t'.getD j FragmentedPacket.new).InBuffer cfg.maxReassembledFragmentSize := by
      rcases getPacket_table hg with rfl | rfl
      · exact h
      · intro j
        rw [getD_modify]
        split_ifs
        · exact (h j).reset
        · exact h j
    intro j
    rw [getD_set]
    split_ifs
    · exact (h' i).processEntry
    · exact h' j

theorem FragmentSet.Wf.processIpv4Fragment {cfg : Config} {p : Bytes} {ts : Int} {t : FragmentSet}
    (h : t.Wf cfg) : (Rustwall.processIpv4Fragment cfg p ts t).2.Wf cfg where
  length_eq := (length_processIpv4Fragment cfg p ts t).trans h.length_eq
  keysUnique := keysUnique_processIpv4Fragment cfg p ts h.keysUnique
  clean := h.clean.processIpv4Fragment
  inBuffer := inBuffer_processIpv4Fragment h.inBuffer

theorem FragmentSet.Wf.processEthernet {cfg : Config} {mac : Bytes} {fw : Policy}
    {checkMac : Bool} {frame : Bytes} {s : Pipeline} (h : s.fragments.Wf cfg) :
    ((Rustwall.processEthernet cfg mac fw checkMac frame).run s).2.fragments.Wf cfg := by
  rcases processEthernet_fragments cfg mac fw checkMac frame s with hf | ⟨p, ts, hf⟩
  · rw [hf]; exact h
  · rw [hf]; exact h.processIpv4Fragment

theorem firewall_run_wf (cfg : Config) (mac : Bytes) :
    ∀ (is : List Invocation) {w : Firewall}, (∀ d, (w.lane d).fragments.Wf cfg) →
      ∀ d, ((w.run cfg mac is).2.lane d).fragments.Wf cfg
  | [], _, h => h
  | i :: is, w, h => by
    refine firewall_run_wf cfg mac is fun d => ?_
    show ((w.step cfg mac i).2.pipeline d).fragments.Wf cfg
    by_cases hd : i.dir = d
    · subst hd
      rw [Firewall.step_pipeline_self]
      exact (h i.dir).processEthernet
    · rw [Firewall.step_pipeline_other cfg mac w i hd]
      exact h d

/-- From start-up, over any interleaving of the two directions, both reassembly tables keep the
invariant. -/
theorem firewall_reachable_table_wf (cfg : Config) (mac : Bytes) (is : List Invocation)
    (d : Direction) : (((Firewall.init cfg).run cfg mac is).2.lane d).fragments.Wf cfg :=
  firewall_run_wf cfg mac is (fun d => by cases d <;> exact wf_new cfg) d

/-! ## A full table -/

theorem getPacket_eq_none_iff {cfg : Config} {t : FragmentSet} {k : FragmentKey} {ts : Int} :
    FragmentSet.getPacket cfg t k ts = none ↔
      ∀ e ∈ t, e.started = true ∧ e.key ≠ k ∧ FragmentSet.stale cfg ts e = false := by
  constructor
  · intro h e he
    unfold FragmentSet.getPacket at h
    split at h
    · cases h
    next h₁ =>
      split at h
      · cases h
      next h₂ =>
        split at h
        · cases h
        next h₃ =>
          have e₁ := List.findIdx?_eq_none_iff.1 h₁ e he
          have e₂ := List.findIdx?_eq_none_iff.1 h₂ e he
          have e₃ := List.findIdx?_eq_none_iff.1 h₃ e he
          simp only [FragmentedPacket.isEmpty, Bool.not_eq_false'] at e₂
          simp only [e₂, Bool.true_and, beq_eq_false_iff_ne, ne_eq] at e₁
          exact ⟨e₂, e₁, e₃⟩
  · intro h
    unfold FragmentSet.getPacket
    rw [List.findIdx?_eq_none_iff.2 fun e he => by simp [(h e he).2.1],
      List.findIdx?_eq_none_iff.2 fun e he => by simp [FragmentedPacket.isEmpty, (h e he).1],
      List.findIdx?_eq_none_iff.2 fun e he => (h e he).2.2]

theorem newChecked_ne_fragmentSetFull (b : Bytes) : newChecked b ≠ .error .fragmentSetFull := by
  unfold newChecked checkLen
  split_ifs <;> simp

theorem processEntry_ne_fragmentSetFull (cfg : Config) (p : Bytes) (ts : Int) (e : FragmentedPacket) :
    (processEntry cfg p ts e).1 ≠ .error .fragmentSetFull := by
  unfold processEntry
  dsimp only
  split
  · simp
  · split
    · split
      · simp
      · split
        next err hA =>
          rintro ⟨⟩
          exact newChecked_ne_fragmentSetFull _ hA
        · simp
    · simp

/-- `process_ipv4_fragment` refuses a fragment with `FragmentSetFull` exactly when every entry holds
a started datagram of another key that is not stale at the fragment's timestamp, and the table is
then left as it was. -/
theorem processIpv4Fragment_fragmentSetFull (cfg : Config) (p : Bytes) (ts : Int) (t : FragmentSet) :
    ((processIpv4Fragment cfg p ts t).1 = .error .fragmentSetFull ↔
      ∀ e ∈ t, e.started = true ∧ e.key ≠ fragmentKey p ∧ FragmentSet.stale cfg ts e = false) ∧
    ((processIpv4Fragment cfg p ts t).1 = .error .fragmentSetFull →
      (processIpv4Fragment cfg p ts t).2 = t) := by
  unfold processIpv4Fragment
  cases hg : FragmentSet.getPacket cfg t (fragmentKey p) ts with
  | none => exact ⟨iff_of_true rfl (getPacket_eq_none_iff.1 hg), fun _ => rfl⟩
  | some r =>
    obtain ⟨i, t'⟩ := r
    have hne := processEntry_ne_fragmentSetFull cfg p ts (t'.getD i FragmentedPacket.new)
    refine ⟨iff_of_false hne fun h => ?_, fun h => absurd h hne⟩
    rw [← getPacket_eq_none_iff, hg] at h
    cases h

/-! ## The reassembly clock -/

theorem length_of_checked_payload {frame : Bytes} {P : Bytes}
    (hP : (newChecked (EthernetFrame.payload frame) >>= shaveCrcFromIpv4) = .ok P) :
    ethernetFramePayload ≤ frame.length := by
  by_contra hlt
  rw [EthernetFrame.payload, List.drop_eq_nil_of_le (by omega)] at hP
  cases hP

/-- `process_ethernet` advances `MS` exactly when the frame passes the MAC filter and reaches
reassembly. -/
theorem processEthernet_ms (cfg : Config) (mac : Bytes) (fw : Policy) (checkMac : Bool)
    (frame : Bytes) (s : Pipeline) :
    ((processEthernet cfg mac fw checkMac frame).run s).2.ms =
      if (macPasses mac checkMac frame && reachesReassembly frame) = true then wrapI64 (s.ms + 1)
      else s.ms := by
  cases hq : reachesReassembly frame
  case false =>
    rw [Bool.and_false, if_neg Bool.false_ne_true]
    exact (processEthernet_quiet cfg mac fw checkMac frame s hq).2
  case true =>
    simp only [reachesReassembly, Bool.and_eq_true, beq_iff_eq] at hq
    obtain ⟨het, hp⟩ := hq
    cases hP : newChecked (EthernetFrame.payload frame) >>= shaveCrcFromIpv4 with
    | error e => rw [hP] at hp; cases hp
    | ok P =>
      rw [hP] at hp
      have hlen := length_of_checked_payload hP
      rw [run_processEthernet, EthernetFrame.newChecked_eq_ok frame hlen]
      dsimp only
      by_cases hm : macPasses mac checkMac frame = true
      case neg => rw [if_neg hm, Bool.eq_false_iff.2 hm]; rfl
      rw [if_pos hm, het, hm]
      have hr : ((processIpv4 cfg fw frame).run s).2.ms = wrapI64 (s.ms + 1) := by
        rw [(processIpv4_fragments_ms cfg fw frame s).2, run_receiveIpv4,
          EthernetFrame.newChecked_eq_ok frame hlen, except_ok_bind, hP]
        dsimp only
        rw [run_reassemble, if_pos hp]
      rcases hx : (processIpv4 cfg fw frame).run s with ⟨r, s₁⟩
      rw [hx] at hr
      cases r <;> exact hr

/-- Over any interleaving of the two directions, `MS` advances by one, wrapping as an `i64`, for
each invocation whose frame passes the MAC filter and reaches reassembly, and for no other: the
tables age by the fragments both directions receive. -/
theorem firewall_run_ms (cfg : Config) (mac : Bytes) :
    ∀ (is : List Invocation) (w : Firewall),
      (w.run cfg mac is).2.ms = (fun m => wrapI64 (m + 1))^[(is.filter fun i =>
        macPasses mac i.checkMac i.frame && reachesReassembly i.frame).length] w.ms
  | [], _ => rfl
  | i :: is, w => by
    have hs : (w.step cfg mac i).2.ms = if (macPasses mac i.checkMac i.frame &&
        reachesReassembly i.frame) = true then wrapI64 (w.ms + 1) else w.ms := by
      show ((w.step cfg mac i).2.pipeline i.dir).ms = _
      rw [Firewall.step_pipeline_self, processEthernet_ms]
      rfl
    show ((w.step cfg mac i).2.run cfg mac is).2.ms = _
    rw [firewall_run_ms cfg mac is, hs, List.filter_cons]
    split
    · rw [List.length_cons, Function.iterate_succ_apply]
    · rfl

end Rustwall
