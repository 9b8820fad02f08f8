import Rustwall.Pipeline.Ethernet

/-!
# Reassembly entries never mix datagrams

`process_ipv4_fragment` looks up an entry with `get_packet`, starts it when it is empty, adds the
fragment, and resets it on completion and when `add` fails. Two invariants hold of every table
the calls reach from `FragmentSet::new`:

* no two started entries hold one key (`KeysUnique`), since `get_packet` prefers the entry that
  holds the key and hands out an empty or a reset one only when none does;
* every started entry's filled bytes are those that the fragments of its key added since it was
  last started wrote (`Tracked.Inv`), since starting, resetting and adding are the only updates.

A `Tracked` table pairs each entry with the fragments added to it since its start; `trackStep`
refines `process_ipv4_fragment` (`trackStep_entries`), and on it both invariants hold along every
run (`trackRun_inv`), together with where each history begins: at the call that last started the
entry, after which every table holds the key (`LastStart`). `processIpv4Fragment_no_mixing` reads
the result back onto the code: a datagram the call returns is assembled from the fragments of its
key since the call that last started its entry, and since completion resets the entry
(`holdsKey_of_some`), no datagram of that key was returned in between.
-/

namespace Rustwall

open Ipv4Packet

/-! ## Lists -/

theorem getD_set {α : Type} (l : List α) (i j : Nat) (a d : α) :
    (l.set i a).getD j d = if i = j ∧ i < l.length then a else l.getD j d := by
  simp only [List.getD_eq_getElem?_getD, List.getElem?_set]
  by_cases hij : i = j
  · subst hij
    by_cases hi : i < l.length
    · simp [hi]
    · simp [hi, List.getElem?_eq_none (Nat.le_of_not_lt hi)]
  · simp [hij]

theorem getD_modify {α : Type} (l : List α) (f : α → α) (i j : Nat) (d : α) :
    (l.modify f i).getD j d = if i = j ∧ j < l.length then f (l.getD j d) else l.getD j d := by
  simp only [List.getD_eq_getElem?_getD, List.getElem?_modify]
  by_cases hij : i = j
  · subst hij
    by_cases hi : i < l.length
    · simp [hi]
    · simp [hi, List.getElem?_eq_none (Nat.le_of_not_lt hi)]
  · simp [hij]

/-! ## Entries -/

namespace FragmentedPacket

@[simp] theorem new_started : new.started = false := rfl

@[simp] theorem start_started (e : FragmentedPacket) (k : FragmentKey) : (e.start k).started = true :=
  rfl

@[simp] theorem start_key (e : FragmentedPacket) (k : FragmentKey) : (e.start k).key = k := rfl

@[simp] theorem start_filled (e : FragmentedPacket) (k : FragmentKey) : (e.start k).filled = e.filled :=
  rfl

@[simp] theorem start_buffer (e : FragmentedPacket) (k : FragmentKey) : (e.start k).buffer = e.buffer :=
  rfl

@[simp] theorem reset_started (e : FragmentedPacket) : e.reset.started = false := rfl

@[simp] theorem reset_filled (e : FragmentedPacket) : e.reset.filled = [] := rfl

@[simp] theorem setTotalLen_started (e : FragmentedPacket) (n : Nat) :
    (e.setTotalLen n).started = e.started := rfl

@[simp] theorem setTotalLen_key (e : FragmentedPacket) (n : Nat) : (e.setTotalLen n).key = e.key := rfl

@[simp] theorem setTotalLen_filled (e : FragmentedPacket) (n : Nat) :
    (e.setTotalLen n).filled = e.filled := rfl

@[simp] theorem setTotalLen_buffer (e : FragmentedPacket) (n : Nat) :
    (e.setTotalLen n).buffer = e.buffer := rfl

theorem isEmpty_eq (e : FragmentedPacket) : e.isEmpty = !e.started := rfl

/-- What `add` does when it succeeds: the range fits the buffer, the range is recorded and its
bytes are written; the key and the start flag stay. -/
theorem add_eq_ok {e e' : FragmentedPacket} {cap hl off pl : Nat} {data : Bytes} {ts : Int}
    (h : e.add cap hl off pl data ts = .ok e') :
    (addRange hl off pl).2 ≤ cap ∧ e'.started = e.started ∧ e'.key = e.key ∧
      e'.filled = e.filled ++ [addRange hl off pl] ∧
      ∀ q, e'.buffer q = if (addRange hl off pl).1 ≤ q ∧ q < (addRange hl off pl).2
        then data.getD (q - off) 0 else e.buffer q := by
  unfold add at h
  dsimp only at h
  split at h
  · cases h
  · cases h; exact ⟨by omega, rfl, rfl, rfl, fun _ => rfl⟩

/-- Every byte before the first gap is covered. -/
theorem covered_of_lt_firstGap (e : FragmentedPacket) :
    ∀ n i q, i ≤ q → q < e.firstGap n i → e.covered q = true
  | 0, i, q, hi, hq => absurd hq (by simp only [firstGap]; omega)
  | n + 1, i, q, hi, hq => by
    simp only [firstGap] at hq
    split at hq
    case isTrue hc =>
      rcases Nat.eq_or_lt_of_le hi with rfl | hi'
      · exact hc
      · exact covered_of_lt_firstGap e n (i + 1) q hi' hq
    case isFalse => omega

theorem covered_of_front {e : FragmentedPacket} {cap n : Nat} (h : e.front cap = some n)
    {q : Nat} (hq : q < n) : e.covered q = true := by
  unfold FragmentedPacket.front at h
  split at h
  · cases h
  · cases h; exact e.covered_of_lt_firstGap cap 0 q (Nat.zero_le _) hq

theorem firstGap_le_add (e : FragmentedPacket) : ∀ n i, e.firstGap n i ≤ i + n
  | 0, _ => le_rfl
  | n + 1, i => by
    simp only [firstGap]
    split
    · have := firstGap_le_add e n (i + 1); omega
    · omega

/-- The filled prefix lies in the buffer. -/
theorem front_le {e : FragmentedPacket} {cap n : Nat} (h : e.front cap = some n) : n ≤ cap := by
  unfold FragmentedPacket.front at h
  split at h
  · cases h
  · cases h; simpa using e.firstGap_le_add cap 0

theorem length_getBuffer (e : FragmentedPacket) (lo hi : Nat) : (e.getBuffer lo hi).length = hi - lo := by
  simp [getBuffer]

theorem getBuffer_setBuffer (e : FragmentedPacket) (lo : Nat) (bytes : Bytes) :
    (e.setBuffer lo bytes).getBuffer lo (lo + bytes.length) = bytes := by
  apply List.ext_getElem (by simp [length_getBuffer])
  intro q h₁ h₂
  simp [getBuffer, setBuffer, List.getD_eq_getElem?_getD, List.getElem?_eq_getElem h₂,
    Nat.not_le.mpr h₂]

end FragmentedPacket

open FragmentedPacket

/-! ## One call -/

/-- The datagram `process_ipv4_fragment` returns for the assembled bytes: their total length
written into the header, then the checksum filled. -/
def finalize (assembled : Bytes) : Bytes :=
  fillChecksum (Ipv4Packet.setTotalLen assembled (assembled.length % 65536))

theorem length_finalize (b : Bytes) : (finalize b).length = b.length := by
  simp [finalize, fillChecksum, setChecksum, Ipv4Packet.setTotalLen]

theorem getD_finalize (b : Bytes) (j : Nat) (h : j ≠ 2 ∧ j ≠ 3 ∧ j ≠ 10 ∧ j ≠ 11) :
    (finalize b).getD j 0 = b.getD j 0 := by
  rw [finalize, getD_fillChecksum _ _ h.2.2, Ipv4Packet.setTotalLen, getD_writeU16_of_ne _ _ _ _ h.1 h.2.1]

theorem headerLen_finalize (b : Bytes) : headerLen (finalize b) = headerLen b := by
  rw [finalize, fillChecksum, setChecksum, headerLen_writeU16 _ _ _ (by omega), setChecksum,
    headerLen_writeU16 _ _ _ (by omega), Ipv4Packet.setTotalLen, headerLen_writeU16 _ _ _ (by omega)]

/-- Bytes that passed `new_checked` still pass once finalized, with the total length they have,
as long as that length fits the 16-bit field; the checksum verifies under any header of at least
12 bytes. -/
theorem finalize_checked {b : Bytes} (hb : newChecked b = .ok b) :
    (b.length < 65536 → newChecked (finalize b) = .ok (finalize b) ∧
      totalLen (finalize b) = (finalize b).length) ∧
    (12 ≤ headerLen (finalize b) → verifyChecksum (finalize b) = true) := by
  obtain ⟨h20, hhl, htl⟩ := (newChecked_ok_iff b).1 hb
  have htot : totalLen (finalize b) = b.length % 65536 := by
    rw [Ipv4Packet.totalLen, finalize, readU16_fillChecksum _ 2 (by omega), Ipv4Packet.setTotalLen,
      readU16_writeU16 _ _ _ (by omega), Nat.mod_mod]
  refine ⟨fun hlt => ?_, fun h12 => ?_⟩
  · have htot' : totalLen (finalize b) = (finalize b).length := by
      rw [htot, length_finalize, Nat.mod_eq_of_lt hlt]
    refine ⟨(newChecked_ok_iff _).2 ⟨?_, ?_, ?_⟩, htot'⟩ <;>
      simp only [htot', length_finalize, headerLen_finalize] <;> omega
  · rw [finalize]
    rw [headerLen_finalize] at h12
    refine verifyChecksum_fillChecksum _ ?_ ?_ <;>
      rw [Ipv4Packet.setTotalLen, headerLen_writeU16 _ _ _ (by omega)]
    · exact h12
    · rw [length_writeU16]; omega

theorem prepareEntry_started (p : Bytes) (e : FragmentedPacket) :
    (prepareEntry p e).started = true := by
  unfold prepareEntry; cases h : e.started <;> simp [isEmpty_eq, h] <;> split <;> simp [h]

theorem prepareEntry_key (p : Bytes) (e : FragmentedPacket) :
    (prepareEntry p e).key = if e.isEmpty then fragmentKey p else e.key := by
  unfold prepareEntry; split <;> split <;> simp_all

theorem prepareEntry_filled (p : Bytes) (e : FragmentedPacket) : (prepareEntry p e).filled = e.filled := by
  unfold prepareEntry; split <;> split <;> simp

theorem prepareEntry_buffer (p : Bytes) (e : FragmentedPacket) : (prepareEntry p e).buffer = e.buffer := by
  unfold prepareEntry; split <;> split <;> simp

section Call

variable (cfg : Config) (p : Bytes) (ts : Int) (e : FragmentedPacket)

/-- The entry after the call: reset, or what `add` made of the prepared entry. -/
theorem processEntry_entry :
    (∃ x : FragmentedPacket, (processEntry cfg p ts e).2 = x.reset) ∨
      (processEntry cfg p ts e).2.started = true ∧
      (prepareEntry p e).add cfg.maxReassembledFragmentSize (headerLen p) (fragOffset p)
        (payload p).length p ts = .ok (processEntry cfg p ts e).2 := by
  unfold processEntry
  dsimp only
  split
  · exact .inl ⟨_, rfl⟩
  next e₃ h =>
    have hs : e₃.started = true := by rw [(add_eq_ok h).2.1, prepareEntry_started]
    split
    · split
      · exact .inr ⟨hs, h⟩
      · split
        · exact .inr ⟨hs, h⟩
        · exact .inl ⟨_, rfl⟩
    · exact .inr ⟨hs, h⟩

/-- Two UDP fragments from 10.0.0.1 to 10.0.0.2 with identification 7 and a header length field
of 0, which the length checks of Ipv4Packet::new_checked accept: eight bytes at offset 0 with MF
set, then four at offset 8. -/
def zeroIhlFirst : Bytes := [0x40, 0, 0, 8, 0, 7, 0x20, 0, 64, 17, 0, 0, 10, 0, 0, 1, 10, 0, 0, 2]

/-- The second fragment of the pair. -/
def zeroIhlLast : Bytes := [0x40, 0, 0, 4, 0, 7, 0, 1, 64, 17, 0, 0, 10, 0, 0, 1, 10, 0, 0, 2]

/-- Both fragments reach reassembly in process_ipv4; the second completes the entry, whose 12
bytes Ipv4Packet::new_checked then refuses, and the error leaves the complete entry in place. -/
theorem processIpv4Fragment_truncated_keeps_entry :
    newChecked zeroIhlFirst = .ok zeroIhlFirst ∧ newChecked zeroIhlLast = .ok zeroIhlLast ∧
      isUdpFragment zeroIhlFirst = true ∧ isUdpFragment zeroIhlLast = true ∧
      ∃ t, processIpv4Fragment Config.small zeroIhlFirst 1 (FragmentSet.new Config.small) = (.ok none, t) ∧
        ∃ t', processIpv4Fragment Config.small zeroIhlLast 2 t = (.error .truncated, t') ∧
          (t'.getD 0 new).started = true ∧
          (t'.getD 0 new).checkContigRange Config.small.maxReassembledFragmentSize = true :=
  ⟨rfl, rfl, rfl, rfl, _, rfl, _, rfl, rfl, rfl⟩

/-- A datagram is returned only on completion: from the bytes before the first gap of what `add`
made, finalized, with the entry reset. -/
theorem processEntry_some {b : Bytes} (h : (processEntry cfg p ts e).1 = .ok (some b)) :
    ∃ e₃ front, (prepareEntry p e).add cfg.maxReassembledFragmentSize (headerLen p) (fragOffset p)
        (payload p).length p ts = .ok e₃ ∧
      e₃.front cfg.maxReassembledFragmentSize = some front ∧ b = finalize (e₃.getBuffer 0 front) ∧
      newChecked (e₃.getBuffer 0 front) = .ok (e₃.getBuffer 0 front) ∧
      (processEntry cfg p ts e).2.started = false := by
  unfold processEntry at h
  dsimp only at h
  split at h
  · cases h
  next e₃ hadd =>
    split at h
    next hc =>
      split at h
      · cases h
      next front hfront =>
        split at h
        · cases h
        next assembled hchk =>
          have ha : assembled = e₃.getBuffer 0 front := by
            unfold newChecked at hchk
            cases hc : checkLen (e₃.getBuffer 0 front) <;> simp_all [bind, Except.bind]
          have hlen : (finalize assembled).length = front := by
            rw [length_finalize, ha, length_getBuffer]; rfl
          cases h
          refine ⟨e₃, front, hadd, hfront, ?_, ha ▸ hchk, by simp [processEntry, hadd, hc, hfront, hchk]⟩
          have := getBuffer_setBuffer e₃ 0 (finalize assembled)
          rw [Nat.zero_add, hlen] at this
          rw [← ha, ← this, finalize, ha, length_getBuffer, Nat.sub_zero]
    · cases h

/-- A datagram the call returns is finalized bytes that passed `new_checked`, no longer than a
reassembly buffer. -/
theorem processIpv4Fragment_some {t : FragmentSet} {b : Bytes}
    (h : (processIpv4Fragment cfg p ts t).1 = .ok (some b)) :
    ∃ X, newChecked X = .ok X ∧ X.length ≤ cfg.maxReassembledFragmentSize ∧ b = finalize X := by
  unfold processIpv4Fragment at h
  split at h
  · cases h
  next i t' _ =>
    obtain ⟨e₃, front, -, hfront, rfl, hX, -⟩ := processEntry_some cfg p ts _ h
    exact ⟨_, hX, by rw [length_getBuffer, Nat.sub_zero]; exact front_le hfront, rfl⟩

/-- A 16-byte UDP packet from 10.0.0.1 port 1234 to 10.0.0.2 port 53, with eight payload bytes. -/
def sampleUdpPacket : Bytes :=
  UdpPacket.fillChecksum ⟨10, 0, 0, 1⟩ ⟨10, 0, 0, 2⟩ [4, 210, 0, 53, 0, 16, 0, 0, 1, 2, 3, 4, 5, 6, 7, 8]

/-- A 40-byte datagram from 10.0.0.1 to 10.0.0.2 with identification 7 whose header carries four
option bytes: three no-operations and the end of the list. -/
def optionDatagram : Bytes :=
  fillChecksum ([0x46, 0, 0, 40, 0, 7, 0, 0, 64, 17, 0, 0, 10, 0, 0, 1, 10, 0, 0, 2, 1, 1, 1, 0] ++
    sampleUdpPacket)

/-- Its first fragment, with the options and the first eight bytes of the UDP packet. -/
def optionFirst : Bytes :=
  fillChecksum ([0x46, 0, 0, 32, 0, 7, 0x20, 0, 64, 17, 0, 0, 10, 0, 0, 1, 10, 0, 0, 2, 1, 1, 1, 0] ++
    sampleUdpPacket.take 8)

/-- Its last fragment, at offset 8: options without the copy flag are not repeated, so the
header is 20 bytes long. -/
def optionLast : Bytes :=
  fillChecksum ([0x45, 0, 0, 28, 0, 7, 0, 1, 64, 17, 0, 0, 10, 0, 0, 1, 10, 0, 0, 2] ++ sampleUdpPacket.drop 8)

/-- The two fragments split the datagram's payload; reassembling them places the last one's bytes
after its own 20-byte header, and the datagram returned is 36 bytes long, not 40. -/
theorem processIpv4Fragment_option_datagram_short :
    payload optionFirst ++ payload optionLast = payload optionDatagram ∧
      ∃ t, processIpv4Fragment Config.small optionFirst 1 (FragmentSet.new Config.small) = (.ok none, t) ∧
        ∃ b, (processIpv4Fragment Config.small optionLast 2 t).1 = .ok (some b) ∧
          b.length = 36 ∧ optionDatagram.length = 40 :=
  ⟨rfl, _, rfl, _, rfl, rfl, rfl⟩

end Call

/-- What `get_packet` hands out: an entry index of the table, and a table that differs from the
old one at most at that index; the entry there either holds the key already, or is empty (reset
if it was stale) and no started entry held the key. -/
theorem getPacket_spec {cfg : Config} {t t' : FragmentSet} {k : FragmentKey} {ts : Int} {i : Nat}
    (h : FragmentSet.getPacket cfg t k ts = some (i, t')) :
    i < t.length ∧ t'.length = t.length ∧ (∀ j, j ≠ i → t'.getD j new = t.getD j new) ∧
      (((t'.getD i new).started = true ∧ (t'.getD i new).key = k ∧ t'.getD i new = t.getD i new) ∨
       ((t'.getD i new).started = false ∧
        (t'.getD i new = t.getD i new ∨ t'.getD i new = (t.getD i new).reset) ∧
        ∀ j, (t.getD j new).started = true → (t.getD j new).key ≠ k)) := by
  have hnone : t.findIdx? (fun e => e.started && e.key == k) = none →
      ∀ j, (t.getD j new).started = true → (t.getD j new).key ≠ k := by
    intro hn j hj hk
    rw [List.findIdx?_eq_none_iff] at hn
    have hjl : j < t.length := by
      by_contra hjl
      simp [List.getD_eq_getElem?_getD, List.getElem?_eq_none (Nat.le_of_not_lt hjl)] at hj
    have := hn _ (List.getElem_mem hjl)
    simp [List.getD_eq_getElem?_getD, List.getElem?_eq_getElem hjl] at hj hk
    simp [hj, hk] at this
  unfold FragmentSet.getPacket at h
  split at h
  next i' hi =>
    cases h
    obtain ⟨hil, hp, -⟩ := List.findIdx?_eq_some_iff_getElem.1 hi
    simp only [Bool.and_eq_true, beq_iff_eq] at hp
    refine ⟨hil, rfl, fun _ _ => rfl, .inl ⟨?_, ?_, rfl⟩⟩ <;>
      simp [List.getD_eq_getElem?_getD, List.getElem?_eq_getElem hil, hp]
  next hn =>
    split at h
    next i' hi =>
      cases h
      obtain ⟨hil, hp, -⟩ := List.findIdx?_eq_some_iff_getElem.1 hi
      refine ⟨hil, rfl, fun _ _ => rfl, .inr ⟨?_, .inl rfl, hnone hn⟩⟩
      simpa [List.getD_eq_getElem?_getD, List.getElem?_eq_getElem hil, isEmpty_eq] using hp
    next =>
      split at h
      next i' hi =>
        cases h
        obtain ⟨hil, -, -⟩ := List.findIdx?_eq_some_iff_getElem.1 hi
        refine ⟨hil, List.length_modify _ _ _, fun j hj => ?_, .inr ⟨?_, .inr ?_, hnone hn⟩⟩
        · rw [getD_modify, if_neg (fun h => hj h.1.symm)]
        · rw [getD_modify, if_pos ⟨rfl, hil⟩, reset_started]
        · rw [getD_modify, if_pos ⟨rfl, hil⟩]
      · cases h

theorem getPacket_table {cfg : Config} {t t' : FragmentSet} {k : FragmentKey} {ts : Int} {i : Nat}
    (h : FragmentSet.getPacket cfg t k ts = some (i, t')) :
    t' = t ∨ t' = t.modify FragmentedPacket.reset i := by
  unfold FragmentSet.getPacket at h
  split at h
  · cases h; exact .inl rfl
  · split at h
    · cases h; exact .inl rfl
    · split at h
      · cases h; exact .inr rfl
      · cases h

theorem getPacket_none {cfg : Config} {t : FragmentSet} {k : FragmentKey} {ts : Int}
    (h : FragmentSet.getPacket cfg t k ts = none) :
    ∀ j, (t.getD j new).started = true → (t.getD j new).key ≠ k := by
  intro j hj hk
  unfold FragmentSet.getPacket at h
  split at h
  · cases h
  next hn =>
    rw [List.findIdx?_eq_none_iff] at hn
    have hjl : j < t.length := by
      by_contra hjl
      simp [List.getD_eq_getElem?_getD, List.getElem?_eq_none (Nat.le_of_not_lt hjl)] at hj
    have := hn _ (List.getElem_mem hjl)
    simp [List.getD_eq_getElem?_getD, List.getElem?_eq_getElem hjl] at hj hk
    simp [hj, hk] at this

/-! ## Keys are unique -/

/-- No two started entries of the table hold the same key. -/
def KeysUnique (t : FragmentSet) : Prop :=
  ∀ i j, i ≠ j → (t.getD i new).started = true → (t.getD j new).started = true →
    (t.getD i new).key ≠ (t.getD j new).key

theorem keysUnique_new (cfg : Config) : KeysUnique (FragmentSet.new cfg) := by
  intro i j _ hi
  simp [FragmentSet.new, List.getD_eq_getElem?_getD, List.getElem?_replicate] at hi
  split_ifs at hi <;> simp at hi

/-- Every started entry but the one `get_packet` hands out holds another key than the one looked
up. -/
theorem getPacket_other {cfg : Config} {t t' : FragmentSet} {k : FragmentKey} {ts : Int} {i : Nat}
    (hu : KeysUnique t) (h : FragmentSet.getPacket cfg t k ts = some (i, t')) :
    ∀ j, j ≠ i → (t.getD j new).started = true → (t.getD j new).key ≠ k := by
  intro j hj hs
  rcases (getPacket_spec h).2.2.2 with ⟨hst, hk, heq⟩ | ⟨-, -, hnone⟩
  · rw [← hk, heq]; exact hu j i hj hs (heq ▸ hst)
  · exact hnone j hs

/-- A started entry after the call holds the key it was started with. -/
theorem processEntry_key (cfg : Config) (p : Bytes) (ts : Int) (e : FragmentedPacket)
    (h : (processEntry cfg p ts e).2.started = true) :
    (processEntry cfg p ts e).2.key = if e.isEmpty then fragmentKey p else e.key := by
  rcases processEntry_entry cfg p ts e with ⟨x, hx⟩ | ⟨-, hadd⟩
  · rw [hx, reset_started] at h; cases h
  · rw [(add_eq_ok hadd).2.2.1, prepareEntry_key]

/-- The entry a fragment reaches, after the call, holds the fragment's key if it is started. -/
theorem processIpv4Fragment_entry {cfg : Config} {p : Bytes} {ts : Int} {t t' : FragmentSet}
    {i : Nat} (h : FragmentSet.getPacket cfg t (fragmentKey p) ts = some (i, t'))
    (hs : (processEntry cfg p ts (t'.getD i new)).2.started = true) :
    (processEntry cfg p ts (t'.getD i new)).2.key = fragmentKey p := by
  rw [processEntry_key _ _ _ _ hs]
  rcases (getPacket_spec h).2.2.2 with ⟨hst, hk, -⟩ | ⟨hst, -⟩
  · rw [isEmpty_eq, hst, hk]; rfl
  · rw [isEmpty_eq, hst]; rfl

theorem keysUnique_processIpv4Fragment (cfg : Config) (p : Bytes) (ts : Int) {t : FragmentSet}
    (hu : KeysUnique t) : KeysUnique (processIpv4Fragment cfg p ts t).2 := by
  unfold processIpv4Fragment
  split
  · exact hu
  next i t' h =>
    obtain ⟨hil, hlen, hother, -⟩ := getPacket_spec h
    set e' := (processEntry cfg p ts (t'.getD i new)).2
    have hkey := processIpv4Fragment_entry h
    have hfresh := getPacket_other hu h
    have hget : ∀ j, (t'.set i e').getD j new = if j = i then e' else t.getD j new := by
      intro j
      rw [getD_set]
      by_cases hj : j = i
      · rw [if_pos ⟨hj.symm, hlen ▸ hil⟩, if_pos hj]
      · rw [if_neg (fun h => hj h.1.symm), if_neg hj, hother j hj]
    intro j l hjl hj hl
    rw [hget] at hj hl ⊢
    rw [hget]
    by_cases hji : j = i
    · subst hji
      rw [if_neg (Ne.symm hjl)] at hl ⊢
      rw [if_pos rfl] at hj ⊢
      rw [hkey hj]
      exact (hfresh l (Ne.symm hjl) hl).symm
    · rw [if_neg hji] at hj ⊢
      by_cases hli : l = i
      · subst hli
        rw [if_pos rfl] at hl ⊢
        rw [hkey hl]
        exact hfresh j hji hj
      · rw [if_neg hli] at hl ⊢
        exact hu j l hjl hj hl

/-! ## Where the bytes come from -/

/-- The datagram range `add` writes for a fragment. -/
def fragRange (f : Bytes) : Nat × Nat := addRange (headerLen f) (fragOffset f) (payload f).length

/-- The byte that fragments added in order leave at datagram position `q`: that of the last one
whose range holds `q`, if one does. -/
def written (frags : List Bytes) (q : Nat) : Option UInt8 :=
  frags.foldl (fun acc f => if (fragRange f).1 ≤ q ∧ q < (fragRange f).2
    then some (f.getD (q - fragOffset f) 0) else acc) none

theorem written_append (frags : List Bytes) (f : Bytes) (q : Nat) :
    written (frags ++ [f]) q = if (fragRange f).1 ≤ q ∧ q < (fragRange f).2
      then some (f.getD (q - fragOffset f) 0) else written frags q := by
  simp only [written, List.foldl_append, List.foldl_cons, List.foldl_nil]

/-- A written byte comes from a fragment whose range holds its position. -/
theorem written_some {frags : List Bytes} {q : Nat} {v : UInt8} (h : written frags q = some v) :
    ∃ f ∈ frags, (fragRange f).1 ≤ q ∧ q < (fragRange f).2 ∧ v = f.getD (q - fragOffset f) 0 := by
  induction frags using List.reverseRecOn with
  | nil => cases h
  | append_singleton frags f ih =>
    rw [written_append] at h
    split at h
    case isTrue hr => exact ⟨f, List.mem_append_right _ (List.mem_singleton_self f), hr.1, hr.2, (Option.some.inj h).symm⟩
    case isFalse =>
      obtain ⟨g, hg, hr⟩ := ih h
      exact ⟨g, List.mem_append_left _ hg, hr⟩

/-- Below byte 8 only a fragment at offset 0 writes, since later offsets are multiples of 8; a UDP
fragment at offset 0 has MF set. -/
theorem written_flags {frags : List Bytes} (hudp : ∀ f ∈ frags, isUdpFragment f = true) {q : Nat}
    (hq : q < 8) {v : UInt8} (h : written frags q = some v) :
    ∃ f ∈ frags, fragOffset f = 0 ∧ moreFrags f = true ∧ v = f.getD q 0 := by
  obtain ⟨f, hf, hlo, -, rfl⟩ := written_some h
  have hoff : fragOffset f = 0 := by
    simp only [fragRange, addRange] at hlo
    split at hlo
    · assumption
    · have : fragOffset f % 8 = 0 := by unfold fragOffset; omega
      omega
  have hmf : moreFrags f = true := (by simpa [isUdpFragment, hoff] using hudp f hf : _ ∧ _).1
  exact ⟨f, hf, hoff, hmf, by rw [hoff, Nat.sub_zero]⟩

theorem covered_add {e e₃ : FragmentedPacket} {cap hl off pl : Nat} {data : Bytes} {ts : Int}
    (h : e.add cap hl off pl data ts = .ok e₃) (q : Nat) :
    e₃.covered q = (e.covered q || (decide ((addRange hl off pl).1 ≤ q) &&
      decide (q < (addRange hl off pl).2))) := by
  simp [covered, (add_eq_ok h).2.2.2.1, List.any_append]

/-- A reassembly entry and the fragments added to it since it was last started. -/
structure Tracked where
  entry : FragmentedPacket
  frags : List Bytes

/-- An entry that was never touched. -/
def Tracked.new : Tracked := ⟨FragmentedPacket.new, []⟩

/-- A tracked entry is faithful to its history: the fragments hold its key, its filled ranges are
theirs, every filled byte is the one they wrote, and an idle entry has no history. -/
structure Tracked.Inv (x : Tracked) : Prop where
  keys : ∀ f ∈ x.frags, fragmentKey f = x.entry.key
  filled : x.entry.filled = x.frags.map fragRange
  bytes : ∀ q, x.entry.covered q = true → written x.frags q = some (x.entry.buffer q)
  idle : x.entry.started = false → x.frags = []

theorem Tracked.inv_of_filled {e : FragmentedPacket} (h : e.filled = []) : Tracked.Inv ⟨e, []⟩ :=
  ⟨fun _ hf => absurd hf (List.not_mem_nil _), h, fun q hq => by simp [covered, h] at hq,
    fun _ => rfl⟩

theorem Tracked.inv_prepare {x : Tracked} (hinv : x.Inv) (p : Bytes)
    (hk : ∀ f ∈ x.frags, fragmentKey f = (prepareEntry p x.entry).key) :
    Tracked.Inv ⟨prepareEntry p x.entry, x.frags⟩ where
  keys := hk
  filled := (prepareEntry_filled p x.entry).trans hinv.filled
  bytes q hq := by
    have : (prepareEntry p x.entry).covered q = x.entry.covered q := by
      simp [covered, prepareEntry_filled]
    rw [prepareEntry_buffer]; exact hinv.bytes q (this ▸ hq)
  idle h := by rw [prepareEntry_started] at h; cases h

/-- Adding a fragment of its key to a started entry keeps it faithful, the fragment appended to
its history. -/
theorem Tracked.inv_add {e e₃ : FragmentedPacket} {before : List Bytes} {p : Bytes} {cap : Nat}
    {ts : Int} (hinv : Tracked.Inv ⟨e, before⟩) (hs : e.started = true) (hk : fragmentKey p = e.key)
    (hadd : e.add cap (headerLen p) (fragOffset p) (payload p).length p ts = .ok e₃) :
    Tracked.Inv ⟨e₃, before ++ [p]⟩ := by
  obtain ⟨-, hst, hkey, hfill, hbuf⟩ := add_eq_ok hadd
  refine ⟨fun f hf => ?_, ?_, fun q hq => ?_, fun h => ?_⟩
  · rw [hkey]
    rcases List.mem_append.1 hf with hf | hf
    · exact hinv.keys f hf
    · rw [List.mem_singleton.1 hf, hk]
  · rw [hfill, hinv.filled, List.map_append]; rfl
  · rw [written_append, hbuf q]
    simp only [fragRange]
    split_ifs with hr
    · rfl
    · have hq' : e.covered q = true ∨ ((addRange (headerLen p) (fragOffset p)
          (payload p).length).1 ≤ q ∧ q < (addRange (headerLen p) (fragOffset p) (payload p).length).2) := by
        simpa [covered_add hadd] using hq
      exact hinv.bytes q (hq'.resolve_right hr)
  · rw [hst, hs] at h; cases h

/-! ## The tracked table -/

/-- `process_ipv4_fragment` on a tracked table: the entry the fragment reaches records it, and
forgets its history when the call leaves it reset. -/
def trackStep (cfg : Config) (p : Bytes) (ts : Int) (tt : List Tracked) :
    Except Error (Option Bytes) × List Tracked :=
  match FragmentSet.getPacket cfg (tt.map Tracked.entry) (fragmentKey p) ts with
  | none => (.error .fragmentSetFull, tt)
  | some (i, t) =>
    let e := t.getD i FragmentedPacket.new
    let r := processEntry cfg p ts e
    let before := if e.isEmpty then [] else (tt.getD i Tracked.new).frags
    (r.1, tt.set i ⟨r.2, if r.2.started then before ++ [p] else []⟩)

theorem set_modify_self {α : Type} (l : List α) (f : α → α) (i : Nat) (a : α) :
    (l.modify f i).set i a = l.set i a := by
  apply List.ext_getElem?
  intro n
  simp only [List.getElem?_set, List.length_modify, List.getElem?_modify]
  by_cases h : i = n <;> simp [h]

/-- The tracked table refines the code's: forgetting the histories gives the call's result and
table. -/
theorem trackStep_entries (cfg : Config) (p : Bytes) (ts : Int) (tt : List Tracked) :
    (trackStep cfg p ts tt).1 = (processIpv4Fragment cfg p ts (tt.map Tracked.entry)).1 ∧
      (trackStep cfg p ts tt).2.map Tracked.entry =
        (processIpv4Fragment cfg p ts (tt.map Tracked.entry)).2 := by
  unfold trackStep processIpv4Fragment
  cases h : FragmentSet.getPacket cfg (tt.map Tracked.entry) (fragmentKey p) ts with
  | none => exact ⟨rfl, rfl⟩
  | some r =>
    obtain ⟨i, t⟩ := r
    refine ⟨rfl, ?_⟩
    show (tt.set i _).map Tracked.entry = t.set i _
    rw [List.map_set]
    rcases getPacket_table h with rfl | rfl
    · rfl
    · exact (set_modify_self _ _ _ _).symm

theorem getD_map_entry (tt : List Tracked) (j : Nat) :
    (tt.map Tracked.entry).getD j new = (tt.getD j Tracked.new).entry :=
  List.getD_map tt Tracked.new Tracked.entry

theorem lt_length_of_started {tt : List Tracked} {j : Nat}
    (h : (tt.getD j Tracked.new).entry.started = true) : j < tt.length := by
  by_contra hl
  rw [List.getD_eq_default _ _ (Nat.le_of_not_lt hl)] at h
  cases h

/-! ## Runs of the code's table -/

/-- The table after `process_ipv4_fragment` is called on each fragment and timestamp in turn. -/
def runFragments (cfg : Config) : FragmentSet → List (Bytes × Int) → FragmentSet
  | t, [] => t
  | t, (p, ts) :: ins => runFragments cfg (processIpv4Fragment cfg p ts t).2 ins

theorem runFragments_append (cfg : Config) : ∀ (t : FragmentSet) (xs ys : List (Bytes × Int)),
    runFragments cfg t (xs ++ ys) = runFragments cfg (runFragments cfg t xs) ys
  | _, [], _ => rfl
  | _, (_, _) :: xs, ys => runFragments_append cfg _ xs ys

theorem runFragments_snoc (cfg : Config) (t : FragmentSet) (ins : List (Bytes × Int)) (p : Bytes)
    (ts : Int) :
    runFragments cfg t (ins ++ [(p, ts)]) = (processIpv4Fragment cfg p ts (runFragments cfg t ins)).2 := by
  rw [runFragments_append]; rfl

/-- The table call `l` of `ins` leaves is the one after the first `l + 1` calls. -/
theorem runFragments_take_succ (cfg : Config) (t : FragmentSet) (ins : List (Bytes × Int)) {l : Nat}
    (hl : l < ins.length) :
    runFragments cfg t (ins.take (l + 1)) =
      (processIpv4Fragment cfg ins[l].1 ins[l].2 (runFragments cfg t (ins.take l))).2 := by
  rw [List.take_succ, List.getElem?_eq_getElem hl, Option.toList_some, runFragments_append]; rfl

theorem keysUnique_runFragments (cfg : Config) :
    ∀ (xs : List (Bytes × Int)) {t : FragmentSet}, KeysUnique t → KeysUnique (runFragments cfg t xs)
  | [], _, h => h
  | (p, ts) :: xs, _, h => keysUnique_runFragments cfg xs (keysUnique_processIpv4Fragment cfg p ts h)

/-- Whether a started entry of the table holds the key. -/
def holdsKey (t : FragmentSet) (k : FragmentKey) : Bool := t.any fun e => e.started && e.key == k

theorem holdsKey_iff {t : FragmentSet} {k : FragmentKey} :
    holdsKey t k = true ↔ ∃ j, (t.getD j new).started = true ∧ (t.getD j new).key = k := by
  simp only [holdsKey, List.any_eq_true, Bool.and_eq_true, beq_iff_eq]
  constructor
  · rintro ⟨e, he, hs, hk⟩
    obtain ⟨j, hj, rfl⟩ := List.getElem_of_mem he
    exact ⟨j, by rwa [List.getD_eq_getElem _ _ hj], by rwa [List.getD_eq_getElem _ _ hj]⟩
  · rintro ⟨j, hs, hk⟩
    have hj : j < t.length := by
      by_contra hj
      rw [List.getD_eq_default _ _ (Nat.le_of_not_lt hj)] at hs
      cases hs
    rw [List.getD_eq_getElem _ _ hj] at hs hk
    exact ⟨_, List.getElem_mem hj, hs, hk⟩

/-- A call that returns a datagram leaves no started entry with the datagram's key: its entry is
reset on completion, and no other one held the key. -/
theorem holdsKey_of_some {cfg : Config} {p : Bytes} {ts : Int} {t : FragmentSet} {b : Bytes}
    (hu : KeysUnique t) (hb : (processIpv4Fragment cfg p ts t).1 = .ok (some b)) :
    holdsKey (processIpv4Fragment cfg p ts t).2 (fragmentKey p) = false := by
  unfold processIpv4Fragment at hb ⊢
  cases hget : FragmentSet.getPacket cfg t (fragmentKey p) ts with
  | none => rw [hget] at hb; cases hb
  | some r =>
    obtain ⟨i, t'⟩ := r
    rw [hget] at hb
    dsimp only at hb ⊢
    obtain ⟨hil, hlen, hother, -⟩ := getPacket_spec hget
    obtain ⟨-, -, -, -, -, -, hreset⟩ := processEntry_some cfg p ts _ hb
    rw [Bool.eq_false_iff]
    intro hh
    obtain ⟨j, hs, hk⟩ := holdsKey_iff.1 hh
    rw [getD_set] at hs hk
    by_cases hij : i = j ∧ i < t'.length
    · rw [if_pos hij, hreset] at hs; cases hs
    · have hji : j ≠ i := fun h => hij ⟨h.symm, hlen ▸ hil⟩
      rw [if_neg hij, hother j hji] at hs hk
      exact getPacket_other hu hget j hji hs hk

/-- Call `m` of `ins` last started the entry of key `k`: no started entry held `k` in the table the
call was made on, and one has in every table since. -/
def LastStart (cfg : Config) (ins : List (Bytes × Int)) (k : FragmentKey) (m : Nat) : Prop :=
  holdsKey (runFragments cfg (FragmentSet.new cfg) (ins.take m)) k = false ∧
    ∀ l, m < l → l ≤ ins.length → holdsKey (runFragments cfg (FragmentSet.new cfg) (ins.take l)) k = true

theorem LastStart.snoc {cfg : Config} {ins : List (Bytes × Int)} {k : FragmentKey} {m : Nat}
    (h : LastStart cfg ins k m) (hm : m ≤ ins.length) (x : Bytes × Int)
    (hk : holdsKey (runFragments cfg (FragmentSet.new cfg) (ins ++ [x])) k = true) :
    LastStart cfg (ins ++ [x]) k m := by
  refine ⟨by rw [List.take_append_of_le_length hm]; exact h.1, fun l hml hl => ?_⟩
  rw [List.length_append, List.length_singleton] at hl
  rcases Nat.lt_or_ge l (ins.length + 1) with hl' | hl'
  · rw [List.take_append_of_le_length (by omega)]; exact h.2 l hml (by omega)
  · rw [List.take_of_length_le (by simp only [List.length_append, List.length_singleton]; omega)]
    exact hk

theorem lastStart_length {cfg : Config} {ins : List (Bytes × Int)} {k : FragmentKey}
    (h : holdsKey (runFragments cfg (FragmentSet.new cfg) ins) k = false) :
    LastStart cfg ins k ins.length :=
  ⟨by rw [List.take_length]; exact h, fun _ h₁ h₂ => absurd h₂ (by omega)⟩

/-- The invariants of the tracked table after the calls `ins` from start-up: it refines the code's
table, every entry is faithful to its history, and a started entry's history is every fragment of
its key from the call that last started it on. -/
structure TrackInv (cfg : Config) (ins : List (Bytes × Int)) (tt : List Tracked) : Prop where
  entries : tt.map Tracked.entry = runFragments cfg (FragmentSet.new cfg) ins
  inv : ∀ j, (tt.getD j Tracked.new).Inv
  since : ∀ j, (tt.getD j Tracked.new).entry.started = true → ∃ m < ins.length,
    LastStart cfg ins (tt.getD j Tracked.new).entry.key m ∧
    (tt.getD j Tracked.new).frags =
      ((ins.map Prod.fst).drop m).filter fun f => fragmentKey f == (tt.getD j Tracked.new).entry.key

theorem TrackInv.keys {cfg : Config} {ins : List (Bytes × Int)} {tt : List Tracked}
    (h : TrackInv cfg ins tt) : KeysUnique (tt.map Tracked.entry) :=
  h.entries ▸ keysUnique_runFragments cfg ins (keysUnique_new cfg)

/-- The window of a started entry other than the fragment's grows by nothing. -/
theorem filter_drop_append_of_ne {done : List Bytes} {m : Nat} (hm : m ≤ done.length) (p : Bytes)
    {k : FragmentKey} (hk : fragmentKey p ≠ k) :
    ((done ++ [p]).drop m).filter (fun f => fragmentKey f == k) =
      (done.drop m).filter fun f => fragmentKey f == k := by
  simp [List.drop_append_of_le_length hm, List.filter_append, hk]

theorem filter_drop_append_self {done : List Bytes} {m : Nat} (hm : m ≤ done.length) (p : Bytes) :
    ((done ++ [p]).drop m).filter (fun f => fragmentKey f == fragmentKey p) =
      (done.drop m).filter (fun f => fragmentKey f == fragmentKey p) ++ [p] := by
  simp [List.drop_append_of_le_length hm, List.filter_append]

section Step

variable {cfg : Config} {p : Bytes} {ts : Int} {ins : List (Bytes × Int)} {tt : List Tracked}

/-- The entry a fragment reaches, prepared, is faithful to the history it had, and that history
with the fragment appended is the window of the fragment's key from the call that last started
the entry, or from this one. -/
theorem reached_entry (h : TrackInv cfg ins tt) {i : Nat} {t : FragmentSet}
    (hget : FragmentSet.getPacket cfg (tt.map Tracked.entry) (fragmentKey p) ts = some (i, t)) :
    Tracked.Inv ⟨prepareEntry p (t.getD i new),
      if (t.getD i new).isEmpty then [] else (tt.getD i Tracked.new).frags⟩ ∧
    (prepareEntry p (t.getD i new)).key = fragmentKey p ∧
    ∃ m ≤ ins.length, LastStart cfg ins (fragmentKey p) m ∧
      (if (t.getD i new).isEmpty then [] else (tt.getD i Tracked.new).frags) ++ [p] =
        ((ins.map Prod.fst ++ [p]).drop m).filter fun f => fragmentKey f == fragmentKey p := by
  obtain ⟨-, -, -, hcase⟩ := getPacket_spec hget
  simp only [getD_map_entry] at hcase
  rcases hcase with ⟨hst, hk, heq⟩ | ⟨hst, hreset, hfresh⟩
  · have hkey : (prepareEntry p (t.getD i new)).key = fragmentKey p := by
      rw [prepareEntry_key, isEmpty_eq, hst, hk]; rfl
    have hx := h.inv i
    obtain ⟨m, hm, hlast, hfr⟩ := h.since i (heq ▸ hst)
    rw [isEmpty_eq, hst]
    simp only [Bool.not_true, Bool.false_eq_true, if_false]
    refine ⟨?_, hkey, m, hm.le, by rw [← hk, heq]; exact hlast, ?_⟩
    · have hk' : ∀ f ∈ (tt.getD i Tracked.new).frags,
          fragmentKey f = (prepareEntry p (tt.getD i Tracked.new).entry).key := by
        intro f hf; rw [← heq, hkey, ← hk, heq]; exact hx.keys f hf
      rw [heq]; exact Tracked.inv_prepare hx p hk'
    · rw [filter_drop_append_self (by rw [List.length_map]; omega), hfr, ← heq, hk]
  · have hfill : (t.getD i new).filled = [] := by
      rcases hreset with heq | heq
      · rw [heq, (h.inv i).filled, (h.inv i).idle (heq ▸ hst), List.map_nil]
      · rw [heq, reset_filled]
    rw [isEmpty_eq, hst]
    simp only [Bool.not_false, if_true, List.nil_append]
    refine ⟨Tracked.inv_prepare (Tracked.inv_of_filled hfill) p fun _ hf => absurd hf
      (List.not_mem_nil _), by rw [prepareEntry_key, isEmpty_eq, hst]; rfl, ins.length, le_refl _,
      lastStart_length ?_, by simp⟩
    -- no started entry held the key before this call
    rw [← h.entries, Bool.eq_false_iff]
    intro hh
    obtain ⟨j, hs, hk⟩ := holdsKey_iff.1 hh
    rw [getD_map_entry] at hs hk
    exact hfresh j hs hk

theorem map_fst_snoc (ins : List (Bytes × Int)) (p : Bytes) (ts : Int) :
    (ins ++ [(p, ts)]).map Prod.fst = ins.map Prod.fst ++ [p] := by
  rw [List.map_append]; rfl

/-- A started entry of another key than the fragment's, which the call leaves alone, keeps its
history and the call that last started it. -/
theorem since_untouched (h : TrackInv cfg ins tt) {j : Nat}
    (hj : (tt.getD j Tracked.new).entry.started = true)
    (hk : fragmentKey p ≠ (tt.getD j Tracked.new).entry.key)
    (hheld : holdsKey (runFragments cfg (FragmentSet.new cfg) (ins ++ [(p, ts)]))
      (tt.getD j Tracked.new).entry.key = true) :
    ∃ m < (ins ++ [(p, ts)]).length, LastStart cfg (ins ++ [(p, ts)]) (tt.getD j Tracked.new).entry.key m ∧
      (tt.getD j Tracked.new).frags = ((ins.map Prod.fst ++ [p]).drop m).filter
        fun f => fragmentKey f == (tt.getD j Tracked.new).entry.key := by
  obtain ⟨m, hm, hlast, hfr⟩ := h.since j hj
  refine ⟨m, by rw [List.length_append, List.length_singleton]; omega, hlast.snoc hm.le _ hheld, ?_⟩
  rw [hfr, filter_drop_append_of_ne (by rw [List.length_map]; omega) p hk]

/-- One call keeps the invariants, with the call added to the run. -/
theorem trackStep_inv (h : TrackInv cfg ins tt) :
    TrackInv cfg (ins ++ [(p, ts)]) (trackStep cfg p ts tt).2 := by
  have hentries : (trackStep cfg p ts tt).2.map Tracked.entry =
      runFragments cfg (FragmentSet.new cfg) (ins ++ [(p, ts)]) := by
    rw [(trackStep_entries cfg p ts tt).2, h.entries, runFragments_snoc]
  -- a started entry after the call holds its key in the table after the call
  have hnew : ∀ j, ((trackStep cfg p ts tt).2.getD j Tracked.new).entry.started = true →
      holdsKey (runFragments cfg (FragmentSet.new cfg) (ins ++ [(p, ts)]))
        ((trackStep cfg p ts tt).2.getD j Tracked.new).entry.key = true := fun j hj =>
    holdsKey_iff.2 ⟨j, by rw [← hentries, getD_map_entry]; exact ⟨hj, rfl⟩⟩
  refine ⟨hentries, ?_, fun j hj => ?_⟩
  · unfold trackStep
    split
    · exact h.inv
    next i t hget =>
      intro j
      rw [getD_set]
      split
      · obtain ⟨hprep, hkey, -⟩ := reached_entry h hget
        rcases processEntry_entry cfg p ts (t.getD i new) with ⟨z, hz⟩ | ⟨hs, hadd⟩
        · simp only [hz, reset_started, Bool.false_eq_true, if_false]
          exact Tracked.inv_of_filled (reset_filled z)
        · simp only [hs, if_true]
          exact Tracked.inv_add hprep (prepareEntry_started p _) hkey.symm hadd
      · exact h.inv j
  · have hk := hnew j hj
    revert hj hk
    rw [map_fst_snoc]
    unfold trackStep
    split
    next hnone =>
      intro hj hk
      have := getPacket_none hnone j
      rw [getD_map_entry] at this
      exact since_untouched h hj (fun hk' => this hj hk'.symm) hk
    next i t hget =>
      rw [getD_set]
      split
      next hji =>
        obtain ⟨hji, -⟩ := hji
        subst hji
        obtain ⟨-, -, m, hm, hlast, hw⟩ := reached_entry h hget
        intro hs hk
        simp only at hs hk ⊢
        simp only [hs, if_true]
        rw [processIpv4Fragment_entry hget hs] at hk ⊢
        exact ⟨m, by rw [List.length_append, List.length_singleton]; omega, hlast.snoc hm _ hk, hw⟩
      next hji =>
        intro hj hk
        have hji' : j ≠ i := fun h' => hji ⟨h'.symm, h' ▸ lt_length_of_started hj⟩
        have := getPacket_other h.keys hget j hji'
        rw [getD_map_entry] at this
        exact since_untouched h hj (fun hk' => this hj hk'.symm) hk

/-- A datagram the call returns is the finalized bytes that the window of the fragment's key
wrote, from the call that last started its entry, every one of them written. -/
theorem trackStep_some (h : TrackInv cfg ins tt) {b : Bytes}
    (hb : (trackStep cfg p ts tt).1 = .ok (some b)) :
    ∃ m ≤ ins.length, LastStart cfg ins (fragmentKey p) m ∧
      let W := ((ins.map Prod.fst ++ [p]).drop m).filter fun f => fragmentKey f == fragmentKey p
      (∀ q < b.length, (written W q).isSome) ∧
        b = finalize ((List.range b.length).map fun q => (written W q).getD 0) := by
  unfold trackStep at hb
  split at hb
  · cases hb
  next i t hget =>
    obtain ⟨hprep, hkey, m, hm, hlast, hw⟩ := reached_entry h hget
    obtain ⟨e₃, front, hadd, hfront, rfl, -, -⟩ := processEntry_some cfg p ts _ hb
    have hinv := Tracked.inv_add hprep (prepareEntry_started p _) hkey.symm hadd
    rw [hw] at hinv
    have hlen : (finalize (e₃.getBuffer 0 front)).length = front := by
      rw [length_finalize, length_getBuffer, Nat.sub_zero]
    have hbytes : ∀ q < front, written (((ins.map Prod.fst ++ [p]).drop m).filter
        fun f => fragmentKey f == fragmentKey p) q = some (e₃.buffer q) :=
      fun q hq => hinv.bytes q (covered_of_front hfront hq)
    refine ⟨m, hm, hlast, fun q hq => by rw [hlen] at hq; simp [hbytes q hq], ?_⟩
    rw [hlen]
    congr 1
    apply List.ext_getElem (by simp [length_getBuffer])
    intro q h₁ h₂
    simp only [List.length_map, List.length_range] at h₂
    simp [getBuffer, hbytes q h₂]

end Step

/-! ## Runs -/

/-- The tracked table after the same calls. -/
def trackRun (cfg : Config) : List Tracked → List (Bytes × Int) → List Tracked
  | tt, [] => tt
  | tt, (p, ts) :: ins => trackRun cfg (trackStep cfg p ts tt).2 ins

/-- The tracked table at start-up. -/
def Tracked.init (cfg : Config) : List Tracked := List.replicate cfg.supportedFragments Tracked.new

theorem trackRun_inv (cfg : Config) :
    ∀ (xs ins : List (Bytes × Int)) (tt : List Tracked), TrackInv cfg ins tt →
      TrackInv cfg (ins ++ xs) (trackRun cfg tt xs)
  | [], _, _, h => by simpa using h
  | (p, ts) :: xs, ins, _, h => by
    simpa using trackRun_inv cfg xs (ins ++ [(p, ts)]) _ (trackStep_inv h)

theorem init_entries (cfg : Config) : (Tracked.init cfg).map Tracked.entry = FragmentSet.new cfg := by
  simp [Tracked.init, FragmentSet.new, List.map_replicate, Tracked.new]

theorem trackInv_init (cfg : Config) : TrackInv cfg [] (Tracked.init cfg) := by
  have hget : ∀ j, (Tracked.init cfg).getD j Tracked.new = Tracked.new := fun j => by
    simp [Tracked.init, List.getD_eq_getElem?_getD, List.getElem?_replicate]; split <;> rfl
  refine ⟨init_entries cfg, fun j => ?_, fun j hj => ?_⟩
  · rw [hget]; exact Tracked.inv_of_filled rfl
  · rw [hget] at hj; cases hj

/-- A datagram returned after the calls `ins` from start-up is the finalized image that the
fragments of its key wrote from the call that last started its entry on, every byte written. -/
theorem runFragments_some (cfg : Config) (ins : List (Bytes × Int)) (p : Bytes) (ts : Int) {b : Bytes}
    (hb : (processIpv4Fragment cfg p ts (runFragments cfg (FragmentSet.new cfg) ins)).1 = .ok (some b)) :
    ∃ m ≤ ins.length, LastStart cfg ins (fragmentKey p) m ∧
      let W := ((ins.map Prod.fst ++ [p]).drop m).filter fun f => fragmentKey f == fragmentKey p
      (∀ q < b.length, (written W q).isSome) ∧
        b = finalize ((List.range b.length).map fun q => (written W q).getD 0) := by
  have h := trackRun_inv cfg ins [] _ (trackInv_init cfg)
  rw [List.nil_append] at h
  rw [← h.entries, ← (trackStep_entries cfg p ts _).1] at hb
  exact trackStep_some h hb

theorem processIpv4Fragment_no_mixing (cfg : Config) (ins : List (Bytes × Int)) (p : Bytes)
    (ts : Int) :
    KeysUnique (runFragments cfg (FragmentSet.new cfg) ins) ∧
      ∀ b, (processIpv4Fragment cfg p ts (runFragments cfg (FragmentSet.new cfg) ins)).1 =
          .ok (some b) →
        ∃ m ≤ ins.length,
          holdsKey (runFragments cfg (FragmentSet.new cfg) (ins.take m)) (fragmentKey p) = false ∧
          (∀ l, m < l → l ≤ ins.length →
            holdsKey (runFragments cfg (FragmentSet.new cfg) (ins.take l)) (fragmentKey p) = true) ∧
          (∀ l (hl : l < ins.length), m ≤ l → fragmentKey ins[l].1 = fragmentKey p → ∀ b',
            (processIpv4Fragment cfg ins[l].1 ins[l].2
              (runFragments cfg (FragmentSet.new cfg) (ins.take l))).1 ≠ .ok (some b')) ∧
          let W := ((ins.map Prod.fst ++ [p]).drop m).filter fun f => fragmentKey f == fragmentKey p
          (∀ q < b.length, (written W q).isSome) ∧
            b = finalize ((List.range b.length).map fun q => (written W q).getD 0) := by
  refine ⟨keysUnique_runFragments cfg ins (keysUnique_new cfg), fun b hb => ?_⟩
  obtain ⟨m, hm, ⟨hfresh, hheld⟩, hW⟩ := runFragments_some cfg ins p ts hb
  refine ⟨m, hm, hfresh, hheld, fun l hl hml hkl b' hb' => ?_, hW⟩
  -- a datagram of the key returned in the window would have left no entry holding the key
  have hgone := holdsKey_of_some (keysUnique_runFragments cfg (ins.take l) (keysUnique_new cfg)) hb'
  rw [← runFragments_take_succ cfg _ ins hl, hkl, hheld (l + 1) (by omega) (by omega)] at hgone
  cases hgone

/-! ## The reassembled header -/

theorem getD_map_range {n q : Nat} (g : Nat → UInt8) (hq : q < n) :
    ((List.range n).map g).getD q 0 = g q := by
  simp [List.getD_eq_getElem?_getD, List.getElem?_range hq]

/-- The header of a datagram `process_ipv4_fragment` reassembles, over every sequence of UDP
fragments from the start-up table: the flags word is that of a fragment at offset 0, so the offset
is 0 but MF is set; `new_checked` accepts the bytes and the total length is their length as long as
it fits 16 bits, which it always does when `MAX_REASSEMBLED_FRAGMENT_SIZE < 65536`; and the checksum
verifies under a header of at least 12 bytes. -/
theorem processIpv4Fragment_reassembled_header (cfg : Config) (ins : List (Bytes × Int)) (p : Bytes)
    (ts : Int) (hudp : ∀ f ∈ ins.map Prod.fst ++ [p], isUdpFragment f = true) (b : Bytes)
    (hb : (processIpv4Fragment cfg p ts (runFragments cfg (FragmentSet.new cfg) ins)).1 = .ok (some b)) :
    fragOffset b = 0 ∧ moreFrags b = true ∧ b.length ≤ cfg.maxReassembledFragmentSize ∧
      (b.length < 65536 → newChecked b = .ok b ∧ totalLen b = b.length) ∧
      (12 ≤ headerLen b → verifyChecksum b = true) := by
  obtain ⟨X, hX, hcap, rfl⟩ := processIpv4Fragment_some cfg p ts hb
  obtain ⟨hchk, hsum⟩ := finalize_checked hX
  have h20 := ((newChecked_ok_iff X).1 hX).1
  have hlen := length_finalize X
  -- the flags word comes from fragments at offset 0 of the datagram's window
  have hflags : fragOffset (finalize X) = 0 ∧ moreFrags (finalize X) = true := by
    obtain ⟨m, -, -, hw, hfin⟩ := runFragments_some cfg ins p ts hb
    have hW : ∀ f ∈ ((ins.map Prod.fst ++ [p]).drop m).filter fun f => fragmentKey f == fragmentKey p,
        isUdpFragment f = true := fun f hf => hudp f (List.mem_of_mem_drop (List.mem_of_mem_filter hf))
    obtain ⟨v₆, hv₆⟩ := Option.isSome_iff_exists.1 (hw 6 (by omega))
    obtain ⟨v₇, hv₇⟩ := Option.isSome_iff_exists.1 (hw 7 (by omega))
    obtain ⟨f₆, -, ho₆, hm₆, rfl⟩ := written_flags hW (by decide) hv₆
    obtain ⟨f₇, -, ho₇, -, rfl⟩ := written_flags hW (by decide) hv₇
    have hb₆ : (finalize X).getD 6 0 = f₆.getD 6 0 := by
      rw [hfin, getD_finalize _ _ (by decide), getD_map_range _ (by omega), hv₆]; rfl
    have hb₇ : (finalize X).getD 7 0 = f₇.getD 7 0 := by
      rw [hfin, getD_finalize _ _ (by decide), getD_map_range _ (by omega), hv₇]; rfl
    have := (f₆.getD 6 0).toNat_lt
    have := (f₆.getD 7 0).toNat_lt
    have := (f₇.getD 7 0).toNat_lt
    simp only [fragOffset, moreFrags, readU16, beq_iff_eq, Nat.reduceAdd] at ho₆ hm₆ ho₇ ⊢
    rw [hb₆, hb₇]
    omega
  exact ⟨hflags.1, hflags.2, by omega, fun hlt => hchk (by omega), hsum⟩

theorem processIpv4Fragment_reassembled_header_option :
    (∀ f ∈ [(optionFirst, (1 : Int))].map Prod.fst ++ [optionLast], isUdpFragment f = true) ∧
      ∃ b, (processIpv4Fragment Config.small optionLast 2
          (runFragments Config.small (FragmentSet.new Config.small) [(optionFirst, 1)])).1 = .ok (some b) ∧
        fragOffset b = 0 ∧ moreFrags b = true ∧ b.length ≤ Config.small.maxReassembledFragmentSize ∧
        (b.length < 65536 → newChecked b = .ok b ∧ totalLen b = b.length) ∧
        (12 ≤ headerLen b → verifyChecksum b = true) := by
  have hudp : ∀ f ∈ [(optionFirst, (1 : Int))].map Prod.fst ++ [optionLast], isUdpFragment f = true := by
    intro f hf
    simp only [List.map_cons, List.map_nil, List.cons_append, List.nil_append, List.mem_cons,
      List.mem_singleton, List.not_mem_nil, or_false] at hf
    rcases hf with rfl | rfl <;> rfl
  exact ⟨hudp, _, rfl,
    processIpv4Fragment_reassembled_header Config.small [(optionFirst, 1)] optionLast 2 hudp _ rfl⟩

/-- The datagram reassembled from the two fragments of `optionDatagram` still says "more
fragments". -/
theorem processIpv4Fragment_reassembled_more_frags :
    ∃ b, (processIpv4Fragment Config.small optionLast 2
        (runFragments Config.small (FragmentSet.new Config.small) [(optionFirst, 1)])).1 = .ok (some b) ∧
      moreFrags b = true :=
  ⟨_, rfl, rfl⟩

end Rustwall
