import Rustwall.Pipeline.Fragmenter

/-!
# The fragmenter is sound

Every packet `emitChunk` builds is an option-less UDP header over the chunk (`Emitted`), and the
fragment setters keep that while setting identification, offset and flags (`emitted_fragmentFields`).
The loop of `fragment_large_udp_packet` keeps `start_len + MTU_UDP + remaining_len` equal to the
packet's length with `fragment_offset = start_len` (`fragmentTail_carries`), so its packets carry
the UDP packet in order (`Carries`). `fragmentLargeUdpPacket_sound` assembles the two.
-/

namespace Rustwall

open Ipv4Packet

/-- An emitted IPv4 packet around `chunk`: version 4, header length 20, total length `20 + |chunk|` equal to
the buffer's length, protocol UDP, TTL 64, the given addresses, and `chunk` as payload. -/
structure Emitted (src dst : Ipv4Address) (chunk p : Bytes) : Prop where
  length_eq : p.length = 20 + chunk.length
  version_eq : version p = 4
  headerLen_eq : headerLen p = 20
  totalLen_eq : totalLen p = 20 + chunk.length
  protocol_eq : protocol p = ipProtocolUdp
  hopLimit_eq : hopLimit p = 64
  srcAddr_eq : srcAddr p = src
  dstAddr_eq : dstAddr p = dst
  payload_eq : payload p = chunk

/-- A write into the identification, flags or checksum word keeps an emitted packet emitted. -/
theorem Emitted.writeU16 {src dst : Ipv4Address} {chunk p : Bytes} (he : Emitted src dst chunk p)
    (i v : Nat) (hi : i = 4 ∨ i = 6 ∨ i = 10) :
    Emitted src dst chunk (Rustwall.writeU16 p i v) where
  length_eq := by rw [length_writeU16, he.length_eq]
  version_eq := by rw [version_writeU16 _ _ _ (by omega), he.version_eq]
  headerLen_eq := by rw [headerLen_writeU16 _ _ _ (by omega), he.headerLen_eq]
  totalLen_eq := by rw [totalLen_writeU16 _ _ _ (by omega), he.totalLen_eq]
  protocol_eq := by rw [protocol_writeU16 _ _ _ (by omega), he.protocol_eq]
  hopLimit_eq := by rw [hopLimit_writeU16 _ _ _ (by omega), he.hopLimit_eq]
  srcAddr_eq := by rw [srcAddr_writeU16 _ _ _ (by omega), he.srcAddr_eq]
  dstAddr_eq := by rw [dstAddr_writeU16 _ _ _ (by omega), he.dstAddr_eq]
  payload_eq := by
    rw [payload, headerLen_writeU16 _ _ _ (by omega), totalLen_writeU16 _ _ _ (by omega),
      slice_writeU16 _ _ _ _ _ (by rw [he.headerLen_eq]; omega), ← payload, he.payload_eq]

theorem Emitted.fillChecksum {src dst : Ipv4Address} {chunk p : Bytes} (he : Emitted src dst chunk p) :
    Emitted src dst chunk (Ipv4Packet.fillChecksum p) :=
  (he.writeU16 10 0 (by omega)).writeU16 10 _ (by omega)

/-- `emitChunk` succeeds on a chunk whose packet fits a `u16` length, and builds an emitted packet. -/
theorem emitChunk_emitted (src dst : Ipv4Address) (chunk : Bytes) (h : 20 + chunk.length < 65536) :
    ∃ p, emitChunk src dst chunk = .ok p ∧ Emitted src dst chunk p ∧ readU16 p 6 = 0x4000 := by
  set r : Ipv4Repr := ⟨src, dst, ipProtocolUdp, chunk.length, 64⟩
  set q := Ipv4Packet.fillChecksum (r.header ++ List.replicate chunk.length 0)
  have hH : r.header.length = 20 := rfl
  have hq : q.length = 20 + chunk.length := by simp [q, Ipv4Packet.fillChecksum, setChecksum, hH]
  have hemit : r.emit (List.replicate (r.bufferLen + chunk.length) 0) = q := by
    simp [Ipv4Repr.emit, Ipv4Repr.bufferLen, List.drop_replicate, q]
  have hgetq : ∀ j, j < 20 ∧ j ≠ 10 ∧ j ≠ 11 → q.getD j 0 = r.header.getD j 0 := fun j hj => by
    rw [getD_fillChecksum _ _ hj.2, getD_append_left _ _ _ (by omega)]
  have hget : ∀ j, j < 20 ∧ j ≠ 10 ∧ j ≠ 11 → (q.take 20 ++ chunk).getD j 0 = r.header.getD j 0 :=
    fun j hj => by rw [getD_append_left _ _ _ (by simp [hq]; omega), getD_take _ _ _ hj.1, hgetq j hj]
  have hlen : (20 + chunk.length % 65536) % 65536 = 20 + chunk.length := by omega
  have htot' : readU16 r.header 2 = 20 + chunk.length := by
    show (UInt8.ofNat ((20 + chunk.length % 65536) % 65536 / 256)).toNat * 256 +
      (UInt8.ofNat ((20 + chunk.length % 65536) % 65536)).toNat = _
    simp only [hlen, toNat_uint8_ofNat]; omega
  have htot : totalLen q = 20 + chunk.length := by
    rw [totalLen, readU16, hgetq 2 (by decide), hgetq 3 (by decide)]; exact htot'
  refine ⟨q.take 20 ++ chunk, by simp [emitChunk, hemit, htot], ?_⟩
  have htake : (q.take 20).length = 20 := by simp [hq]
  have hhl : headerLen (q.take 20 ++ chunk) = 20 := by
    rw [headerLen, hget 0 (by decide)]; show (0x45 : UInt8).toNat % 16 * 4 = 20; decide
  have htl : totalLen (q.take 20 ++ chunk) = 20 + chunk.length := by
    rw [totalLen, readU16, hget 2 (by decide), hget 3 (by decide)]; exact htot'
  refine ⟨⟨by simp [htake], ?_, hhl, htl, ?_, ?_, ?_, ?_, ?_⟩, ?_⟩
  · rw [version, hget 0 (by decide)]; show (0x45 : UInt8).toNat / 16 = 4; decide
  · rw [protocol, hget 9 (by decide)]; rfl
  · rw [hopLimit, hget 8 (by decide)]; rfl
  · rw [srcAddr, Ipv4Address.read, hget 12 (by decide), hget 13 (by decide),
      hget 14 (by decide), hget 15 (by decide)]; rfl
  · rw [dstAddr, Ipv4Address.read, hget 16 (by decide), hget 17 (by decide),
      hget 18 (by decide), hget 19 (by decide)]; rfl
  · rw [payload, hhl, htl]
    simpa only [htake] using slice_append (q.take 20) chunk
  · rw [readU16, hget 6 (by decide), hget 7 (by decide)]
    show (0x40 : UInt8).toNat * 256 + (0 : UInt8).toNat = 0x4000; decide

/-! ## The fragment fields -/

/-- The offset goes into the low 13 bits, MF into bit 13, and DF (bit 14) is cleared. -/
theorem withBit_flags (w o : Nat) (b : Bool) (hw : w < 65536) (ho : o < 8192) :
    withBit (withBit ((w / 8192 * 8192 + o) % 65536) 13 b % 65536) 14 false % 65536 =
      w / 32768 * 32768 + (if b then 8192 else 0) + o := by
  have h₁ : (w / 8192 * 8192 + o) % 65536 = 2 ^ (13 + 1) * (w / 16384) + 2 ^ 13 * (w / 8192 % 2) + o := by
    omega
  rw [h₁, withBit_split 13 _ _ _ b (by omega) ho]
  simp only [Nat.reducePow, Nat.reduceAdd]
  have hm : (if b then 8192 else 0) ≤ 8192 := by split <;> omega
  generalize (if b then 8192 else 0) = m at *
  have h₂ : (16384 * (w / 16384) + m + o) % 65536 =
      2 ^ (14 + 1) * (w / 32768) + 2 ^ 14 * (w / 16384 % 2) + (m + o) := by omega
  rw [h₂, withBit_split 14 _ _ _ false (by omega) (by omega), if_neg Bool.false_ne_true]
  omega

/-- The flags-and-offset word after the fragment setters: the reserved bit kept, MF as given, DF
clear and the offset in units of 8. -/
theorem flags_fragmentFields (p : Bytes) (packetId : UInt16) (off : Nat) (more : Bool)
    (hp : 20 ≤ p.length) :
    readU16 (fragmentFields p packetId off more) 6 =
      readU16 p 6 / 32768 * 32768 + (if more then 8192 else 0) + off % 65536 / 8 := by
  have hl : ∀ q : Bytes, ∀ i v, (writeU16 q i v).length = q.length := length_writeU16
  rw [fragmentFields, readU16_fillChecksum _ 6 (by omega), setDontFrag,
    readU16_writeU16 _ _ _ (by simp only [setMoreFrags, setFragOffset, setIdent, hl]; omega), setMoreFrags,
    readU16_writeU16 _ _ _ (by simp only [setFragOffset, setIdent, hl]; omega), setFragOffset,
    readU16_writeU16 _ _ _ (by simp only [setIdent, hl]; omega), setIdent,
    readU16_writeU16_of_disjoint _ 4 _ 6 (by omega)]
  exact withBit_flags _ _ more (readU16_lt p 6) (by omega)

theorem ident_fragmentFields (p : Bytes) (packetId : UInt16) (off : Nat) (more : Bool)
    (hp : 20 ≤ p.length) : ident (fragmentFields p packetId off more) = packetId := by
  simp only [fragmentFields, ident, readU16_fillChecksum _ 4 (by omega), setDontFrag, setMoreFrags,
    setFragOffset, setIdent, readU16_writeU16_of_disjoint _ 6 _ 4 (by omega),
    readU16_writeU16 _ _ _ (show 4 + 1 < p.length by omega), Nat.mod_eq_of_lt packetId.toNat_lt,
    uint16_ofNat_toNat]

/-- A fragment built from an emitted packet: still emitted, with the given identification, offset
and MF flag, and a valid header checksum. -/
theorem emitted_fragmentFields {src dst : Ipv4Address} {chunk p : Bytes}
    (he : Emitted src dst chunk p) (packetId : UInt16) (off : Nat) (more : Bool)
    (hoff : off % 8 = 0) (hoff' : off < 65536) :
    Emitted src dst chunk (fragmentFields p packetId off more) ∧
      ident (fragmentFields p packetId off more) = packetId ∧
      fragOffset (fragmentFields p packetId off more) = off ∧
      moreFrags (fragmentFields p packetId off more) = more ∧
      verifyChecksum (fragmentFields p packetId off more) = true := by
  have hp : 20 ≤ p.length := by rw [he.length_eq]; omega
  have hX : Emitted src dst chunk
      (setDontFrag (setMoreFrags (setFragOffset (setIdent p packetId) off) more) false) :=
    (((he.writeU16 4 _ (by omega)).writeU16 6 _ (by omega)).writeU16 6 _ (by omega)).writeU16 6 _
      (by omega)
  have hf := flags_fragmentFields p packetId off more hp
  have hw := readU16_lt p 6
  refine ⟨hX.fillChecksum, ident_fragmentFields p packetId off more hp, ?_, ?_, ?_⟩
  · rw [fragOffset, hf]; cases more <;> simp <;> omega
  · rw [moreFrags, hf]; cases more <;> simp <;> omega
  · exact verifyChecksum_fillChecksum _ (by rw [hX.headerLen_eq]; omega)
      (by rw [hX.headerLen_eq, hX.length_eq]; omega)

/-! ## The packet list -/

/-- The header every packet of `fragment_large_udp_packet` has: version 4 and no options, a
total length equal to the buffer's length and to `20 +` the payload's, a valid checksum, protocol
UDP, TTL 64, the given addresses and identification. -/
structure HeaderOk (src dst : Ipv4Address) (packetId : UInt16) (q : Bytes) : Prop where
  version_eq : version q = 4
  headerLen_eq : headerLen q = 20
  length_eq : q.length = totalLen q
  totalLen_eq : totalLen q = 20 + (payload q).length
  checksum : verifyChecksum q = true
  protocol_eq : protocol q = ipProtocolUdp
  hopLimit_eq : hopLimit q = 64
  srcAddr_eq : srcAddr q = src
  dstAddr_eq : dstAddr q = dst
  ident_eq : ident q = packetId

theorem Emitted.headerOk {src dst : Ipv4Address} {chunk q : Bytes} (he : Emitted src dst chunk q)
    {packetId : UInt16} (hid : ident q = packetId) (hc : verifyChecksum q = true) :
    HeaderOk src dst packetId q :=
  ⟨he.version_eq, he.headerLen_eq, by rw [he.length_eq, he.totalLen_eq],
    by rw [he.totalLen_eq, he.payload_eq], hc, he.protocol_eq, he.hopLimit_eq, he.srcAddr_eq,
    he.dstAddr_eq, hid⟩

/-- The packets `ps` carry the bytes `rest` from fragment offset `off` on: each packet but the last
carries the next `mtu` bytes with MF set, the last what is left, at most `mtu` bytes, with MF
clear, and each packet's offset is `off` plus what the packets before it carry. -/
def Carries (mtu : Nat) : Nat → List Bytes → Bytes → Prop
  | _, [], _ => False
  | off, [p], rest => payload p = rest ∧ rest.length ≤ mtu ∧ moreFrags p = false ∧ fragOffset p = off
  | off, p :: q :: ps, rest => payload p = rest.take mtu ∧ mtu ≤ rest.length ∧
      moreFrags p = true ∧ fragOffset p = off ∧ Carries mtu (off + mtu) (q :: ps) (rest.drop mtu)

namespace Carries

variable {mtu : Nat}

theorem ne_nil : ∀ {off ps rest}, Carries mtu off ps rest → ps ≠ []
  | _, [], _, h => h.elim
  | _, _ :: _, _, _ => List.cons_ne_nil _ _

theorem flatten_payload : ∀ {off ps rest}, Carries mtu off ps rest → (ps.map payload).flatten = rest
  | _, [], _, h => h.elim
  | _, [_], _, ⟨h, _⟩ => by simp [h]
  | _, _ :: _ :: _, _, ⟨h, _, _, _, hc⟩ => by
    rw [List.map_cons, List.flatten_cons, h, flatten_payload hc, List.take_append_drop]

theorem payload_length_le : ∀ {off ps rest}, Carries mtu off ps rest →
    ∀ q ∈ ps, (payload q).length ≤ mtu
  | _, [], _, h => h.elim
  | _, [_], _, ⟨h, hl, _⟩ => by simp [h, hl]
  | _, _ :: _ :: _, _, ⟨h, _, _, _, hc⟩ => by
    rintro q (_ | ⟨_, hq⟩)
    · simp [h]
    · exact payload_length_le hc q hq

theorem dropLast : ∀ {off ps rest}, Carries mtu off ps rest →
    ∀ q ∈ ps.dropLast, (payload q).length = mtu ∧ moreFrags q = true
  | _, [], _, h => h.elim
  | _, [_], _, _ => by simp
  | _, _ :: _ :: _, _, ⟨h, hl, hm, _, hc⟩ => by
    rw [List.dropLast_cons₂]
    rintro q (_ | ⟨_, hq⟩)
    · simp [h, hl, hm]
    · exact dropLast hc q hq

theorem getLast : ∀ {off ps rest}, Carries mtu off ps rest → ∀ q ∈ ps.getLast?, moreFrags q = false
  | _, [], _, h => h.elim
  | _, [_], _, ⟨_, _, hm, _⟩ => by simp [hm]
  | _, _ :: _ :: _, _, ⟨_, _, _, _, hc⟩ => by
    rw [List.getLast?_cons_cons]
    exact getLast hc

theorem fragOffset_eq : ∀ {off ps rest}, Carries mtu off ps rest → ∀ i (hi : i < ps.length),
    fragOffset ps[i] = off + ((ps.take i).map fun q => (payload q).length).sum
  | _, [], _, h, _, _ => h.elim
  | _, [_], _, ⟨_, _, _, ho⟩, 0, _ => by simp [ho]
  | _, _ :: _ :: _, _, ⟨_, _, _, ho⟩, 0, _ => by simp [ho]
  | _, _ :: _ :: _, _, ⟨h, hl, _, _, hc⟩, i + 1, hi => by
    rw [List.getElem_cons_succ, fragOffset_eq hc i (by simpa using hi), List.take_succ_cons,
      List.map_cons, List.sum_cons, h, List.length_take, Nat.min_eq_left hl, Nat.add_assoc]

theorem fragOffset_mod (h8 : mtu % 8 = 0) : ∀ {off ps rest}, Carries mtu off ps rest →
    off % 8 = 0 → ∀ q ∈ ps, fragOffset q % 8 = 0
  | _, [], _, h, _ => h.elim
  | _, [_], _, ⟨_, _, _, ho⟩, hoff => by simp [ho, hoff]
  | _, _ :: _ :: _, _, ⟨_, _, _, ho, hc⟩, hoff => by
    rintro q (_ | ⟨_, hq⟩)
    · rwa [ho]
    · exact fragOffset_mod h8 hc (by omega) q hq

end Carries

/-! ## The loop -/

theorem sliceChecked_ok (b : Bytes) (lo hi : Nat) (h : lo ≤ hi ∧ hi ≤ b.length) :
    sliceChecked b lo hi = .ok (slice b lo hi) := if_pos h

/-- A fragment cut from an emitted packet at offset `off`, as the loop makes it. -/
theorem headerOk_fragmentFields {src dst : Ipv4Address} {chunk p : Bytes}
    (he : Emitted src dst chunk p) (packetId : UInt16) (off : Nat) (more : Bool)
    (hoff : off % 8 = 0) (hoff' : off < 65536) :
    HeaderOk src dst packetId (fragmentFields p packetId off more) ∧
      payload (fragmentFields p packetId off more) = chunk ∧
      fragOffset (fragmentFields p packetId off more) = off ∧
      moreFrags (fragmentFields p packetId off more) = more := by
  obtain ⟨hX, hid, ho, hm, hc⟩ := emitted_fragmentFields he packetId off more hoff hoff'
  exact ⟨hX.headerOk hid hc, hX.payload_eq, ho, hm⟩

section Loop

variable (mtu : Nat) (u : Bytes) (src dst : Ipv4Address) (packetId : UInt16)

/-- The loop invariant: `start_len + MTU_UDP + remaining_len = n` and `fragment_offset = start_len`,
a multiple of 8. From there the loop and the last fragment carry the rest of `u`; the loop stops
while more than nothing is left, so the last fragment is empty only when nothing remained. -/
theorem fragmentTail_carries (hmtu : 0 < mtu) (h8 : mtu % 8 = 0) (hu : 20 + u.length < 65536) :
    ∀ fuel start remaining, start + mtu + remaining = u.length → remaining < fuel →
      start % 8 = 0 → ∃ qs, fragmentTail mtu u src dst packetId fuel start start remaining = .ok qs ∧
        Carries mtu (start + mtu) qs (u.drop (start + mtu)) ∧ (∀ q ∈ qs, HeaderOk src dst packetId q) ∧
        (0 < remaining → ∀ q ∈ qs.getLast?, payload q ≠ [])
  | 0, _, _, _, hf, _ => absurd hf (Nat.not_lt_zero _)
  | fuel + 1, start, remaining, hsum, hf, hs => by
    have hoff : (start + mtu % 65536) % 65536 = start + mtu := by omega
    simp only [fragmentTail, hoff]
    split
    case isTrue hr =>
      have hchunk : slice u (start + mtu) (start + mtu + mtu) = (u.drop (start + mtu)).take mtu := by
        rw [slice_eq_take_drop, Nat.add_sub_cancel_left]
      obtain ⟨p, hp, he, -⟩ :=
        emitChunk_emitted src dst ((u.drop (start + mtu)).take mtu)
          (by rw [List.length_take, List.length_drop]; omega)
      obtain ⟨qs, hqs, hc, hh, hlast⟩ :=
        fragmentTail_carries hmtu h8 hu fuel (start + mtu) (remaining - mtu) (by omega) (by omega)
          (by omega)
      obtain ⟨hok, hpl, ho, hm⟩ :=
        headerOk_fragmentFields he packetId (start + mtu) true (by omega) (by omega)
      obtain ⟨q, qs, rfl⟩ := List.exists_cons_of_ne_nil hc.ne_nil
      refine ⟨fragmentFields p packetId (start + mtu) true :: q :: qs,
        by rw [sliceChecked_ok _ _ _ (by omega), hchunk]; simp [hp, hqs],
        ⟨hpl, by simp; omega, hm, ho, by rwa [List.drop_drop]⟩, ?_, fun _ => ?_⟩
      · rintro q (_ | ⟨_, hq⟩)
        exacts [hok, hh q hq]
      · rw [List.getLast?_cons_cons]
        exact hlast (by omega)
    case isFalse hr =>
      have hchunk : slice u (start + mtu) u.length = u.drop (start + mtu) := by
        simp [slice_eq_take_drop]
      obtain ⟨p, hp, he, -⟩ := emitChunk_emitted src dst (u.drop (start + mtu)) (by simp; omega)
      obtain ⟨hok, hpl, ho, hm⟩ :=
        headerOk_fragmentFields he packetId (start + mtu) false (by omega) (by omega)
      refine ⟨[fragmentFields p packetId (start + mtu) false],
        by rw [sliceChecked_ok _ _ _ (by omega), hchunk]; simp [hp], ⟨hpl, ?_, hm, ho⟩, by simpa using hok,
        fun hpos => ?_⟩
      · simp; omega
      · simp only [List.getLast?_singleton, Option.mem_some_iff, forall_eq', hpl]
        exact List.ne_nil_of_length_pos (by simp; omega)

end Loop

/-- The single packet of a UDP packet shorter than `MTU_UDP`: the flags word stays as `emit` wrote
it, so MF is clear and the offset 0. -/
theorem headerOk_single {src dst : Ipv4Address} {chunk p : Bytes} (he : Emitted src dst chunk p)
    (hflags : readU16 p 6 = 0x4000) (packetId : UInt16) :
    HeaderOk src dst packetId (fillChecksum (setIdent p packetId)) ∧
      payload (fillChecksum (setIdent p packetId)) = chunk ∧
      fragOffset (fillChecksum (setIdent p packetId)) = 0 ∧
      moreFrags (fillChecksum (setIdent p packetId)) = false := by
  have hp : 20 ≤ p.length := by rw [he.length_eq]; omega
  have hX := (he.writeU16 4 packetId.toNat (by omega)).fillChecksum
  have hw : readU16 (fillChecksum (setIdent p packetId)) 6 = 0x4000 := by
    rw [readU16_fillChecksum _ 6 (by omega), setIdent, readU16_writeU16_of_disjoint _ 4 _ 6 (by omega),
      hflags]
  have hid : ident (fillChecksum (setIdent p packetId)) = packetId := by
    rw [ident, readU16_fillChecksum _ 4 (by omega), setIdent, readU16_writeU16 _ _ _ (by omega),
      Nat.mod_eq_of_lt packetId.toNat_lt, uint16_ofNat_toNat]
  refine ⟨hX.headerOk hid (verifyChecksum_fillChecksum _ ?_ ?_), hX.payload_eq, by simp [fragOffset, hw],
    by simp [moreFrags, hw]⟩
  · rw [headerLen_writeU16 _ _ _ (by omega), he.headerLen_eq]; omega
  · rw [headerLen_writeU16 _ _ _ (by omega), he.headerLen_eq, length_writeU16]; omega

/-! ## Soundness -/

/-- What `fragment_large_udp_packet` promises of the packets `ps` it makes of the UDP packet `u`:
their payloads are `u` cut in order into pieces of `mtu` bytes and a last piece of at most `mtu`,
each at the offset where its piece starts, with MF on all but the last, under a valid header. -/
structure FragmentsOf (mtu : Nat) (u : Bytes) (src dst : Ipv4Address) (packetId : UInt16)
    (ps : List Bytes) : Prop where
  ne_nil : ps ≠ []
  payloads_flatten : (ps.map payload).flatten = u
  payload_length_le : ∀ q ∈ ps, (payload q).length ≤ mtu
  payload_length_dropLast : ∀ q ∈ ps.dropLast, (payload q).length = mtu
  fragOffset_eq : ∀ i (hi : i < ps.length),
    fragOffset ps[i] = ((ps.take i).map fun q => (payload q).length).sum
  fragOffset_mod : ∀ q ∈ ps, fragOffset q % 8 = 0
  moreFrags_dropLast : ∀ q ∈ ps.dropLast, moreFrags q = true
  moreFrags_getLast : ∀ q ∈ ps.getLast?, moreFrags q = false
  headerOk : ∀ q ∈ ps, HeaderOk src dst packetId q

theorem Carries.fragmentsOf {mtu : Nat} (h8 : mtu % 8 = 0) {u : Bytes} {ps : List Bytes}
    (hc : Carries mtu 0 ps u) {src dst : Ipv4Address} {packetId : UInt16}
    (hh : ∀ q ∈ ps, HeaderOk src dst packetId q) : FragmentsOf mtu u src dst packetId ps where
  ne_nil := hc.ne_nil
  payloads_flatten := hc.flatten_payload
  payload_length_le := hc.payload_length_le
  payload_length_dropLast q hq := (hc.dropLast q hq).1
  fragOffset_eq i hi := by rw [hc.fragOffset_eq i hi, Nat.zero_add]
  fragOffset_mod := hc.fragOffset_mod h8 (Nat.zero_mod 8)
  moreFrags_dropLast q hq := (hc.dropLast q hq).2
  moreFrags_getLast := hc.getLast
  headerOk := hh

/-- The identification `fragment_large_udp_packet` gives its packets: `packet_id`, unless it is
zero and the packet is fragmented, when it is the counter's next value. -/
def fragmentIdent (cfg : Config) (u : Bytes) (packetId seed : UInt16) : UInt16 :=
  if cfg.mtuUdp ≤ u.length ∧ packetId = 0 then getPseudorandomPacketId seed else packetId

theorem fragmentLargeUdpPacket_fragments (cfg : Config) (u : Bytes) (src dst : Ipv4Address)
    (packetId seed : UInt16) (hu : 20 + u.length ≤ 65535) :
    ∃ ps, (fragmentLargeUdpPacket cfg u src dst packetId seed).1 = .ok ps ∧
      FragmentsOf cfg.mtuUdp u src dst (fragmentIdent cfg u packetId seed) ps ∧
      (cfg.mtuUdp ≤ u.length → 2 ≤ ps.length) ∧
      (cfg.mtuUdp < u.length → ∀ q ∈ ps.getLast?, payload q ≠ []) := by
  have hmtu := cfg.mtuUdp_pos
  have h8 := cfg.mtuUdp_mod
  by_cases hshort : u.length < cfg.mtuUdp
  case pos =>
    obtain ⟨p, hp, he, hfl⟩ := emitChunk_emitted src dst u (by omega)
    obtain ⟨hok, hpl, ho, hm⟩ := headerOk_single he hfl packetId
    have hc : Carries cfg.mtuUdp 0 [fillChecksum (setIdent p packetId)] u := ⟨hpl, hshort.le, hm, ho⟩
    have hid : fragmentIdent cfg u packetId seed = packetId := if_neg (by omega)
    rw [hid]
    exact ⟨_, by simp [fragmentLargeUdpPacket, hshort, hp],
      Carries.fragmentsOf h8 hc (by simpa using hok), by omega, by omega⟩
  case neg =>
    have hid : fragmentIdent cfg u packetId seed =
        if packetId = 0 then if packetId = 0 then getPseudorandomPacketId seed else seed
        else packetId := by
      by_cases h0 : packetId = 0 <;> simp [fragmentIdent, h0, Nat.le_of_not_lt hshort]
    simp only [fragmentLargeUdpPacket, if_neg hshort, ← hid]
    set pid := fragmentIdent cfg u packetId seed
    obtain ⟨p, hp, he, -⟩ := emitChunk_emitted src dst (u.take cfg.mtuUdp) (by simp; omega)
    obtain ⟨qs, hqs, hc, hh, hlast⟩ := fragmentTail_carries cfg.mtuUdp u src dst pid hmtu h8 (by omega)
      u.length 0 (u.length - cfg.mtuUdp) (by omega) (by omega) rfl
    obtain ⟨hok, hpl, ho, hm⟩ := headerOk_fragmentFields he pid 0 true rfl (by decide)
    obtain ⟨q, qs, rfl⟩ := List.exists_cons_of_ne_nil hc.ne_nil
    have hc' : Carries cfg.mtuUdp 0 (fragmentFields p pid 0 true :: q :: qs) u :=
      ⟨hpl, by omega, hm, ho, by simpa using hc⟩
    refine ⟨_, by rw [sliceChecked_ok _ _ _ (by omega)]; simp [slice_eq_take_drop, hp, hqs],
      Carries.fragmentsOf h8 hc' ?_, fun _ => by simp, fun hlong => ?_⟩
    · rintro q (_ | ⟨_, hq⟩)
      exacts [hok, hh q hq]
    · rw [List.getLast?_cons_cons]
      exact hlast (by omega)

theorem fragmentLargeUdpPacket_sound (cfg : Config) (u : Bytes) (src dst : Ipv4Address)
    (packetId seed : UInt16) (hu : 20 + u.length ≤ 65535) :
    ∃ ps id, (fragmentLargeUdpPacket cfg u src dst packetId seed).1 = .ok ps ∧
      FragmentsOf cfg.mtuUdp u src dst id ps ∧ (packetId ≠ 0 ∨ ps.length = 1 → id = packetId) := by
  obtain ⟨ps, hps, hF, h2, -⟩ := fragmentLargeUdpPacket_fragments cfg u src dst packetId seed hu
  refine ⟨ps, _, hps, hF, ?_⟩
  rintro (h0 | h1)
  · exact if_neg fun h => h0 h.2
  · exact if_neg fun h => absurd (h2 h.1) (by omega)

/-- A UDP packet from 10.0.0.1 port 1234 to 10.0.0.2 port 53 with 64 payload bytes, as long as
`MAX_UDP_PACKET_SIZE` of the small build allows. -/
def longUdpPacket : Bytes :=
  UdpPacket.fillChecksum ⟨10, 0, 0, 1⟩ ⟨10, 0, 0, 2⟩
    ([4, 210, 0, 53, 0, 72, 0, 0] ++ (List.range 64).map UInt8.ofNat)

/-- The 72 bytes of `longUdpPacket` in fragments of 16: a first fragment, three iterations of the
middle-fragment loop, and a last fragment of 8 bytes. -/
theorem fragmentLargeUdpPacket_sound_long :
    20 + longUdpPacket.length ≤ 65535 ∧
      ∃ ps id, (fragmentLargeUdpPacket Config.small longUdpPacket ⟨10, 0, 0, 1⟩ ⟨10, 0, 0, 2⟩ 7 42).1 =
          .ok ps ∧
        FragmentsOf Config.small.mtuUdp longUdpPacket ⟨10, 0, 0, 1⟩ ⟨10, 0, 0, 2⟩ id ps ∧
        ((7 : UInt16) ≠ 0 ∨ ps.length = 1 → id = 7) :=
  ⟨by decide, fragmentLargeUdpPacket_sound Config.small longUdpPacket _ _ 7 42 (by decide)⟩

/-! ## How many fragments -/

section Lengths

variable {mtu : Nat} {U : Bytes} {src dst : Ipv4Address} {id : UInt16} {ps : List Bytes}

theorem getElem_mem_dropLast {ps : List Bytes} {j : Nat} (hj : j + 1 < ps.length) :
    ps[j] ∈ ps.dropLast := by
  have h : j < ps.dropLast.length := by simp; omega
  exact List.getElem_dropLast ps j h ▸ List.getElem_mem h

theorem FragmentsOf.length_payload_of_lt (hF : FragmentsOf mtu U src dst id ps) {j : Nat}
    (hj : j + 1 < ps.length) : (payload ps[j]).length = mtu :=
  hF.payload_length_dropLast _ (getElem_mem_dropLast hj)

theorem FragmentsOf.sum_take_lengths (hF : FragmentsOf mtu U src dst id ps) :
    ∀ j, j + 1 ≤ ps.length → ((ps.take j).map fun q => (payload q).length).sum = j * mtu
  | 0, _ => by simp
  | j + 1, h => by
    have hj : j < (ps.map fun q => (payload q).length).length := by simp; omega
    rw [List.map_take, List.sum_take_succ _ j hj, ← List.map_take,
      FragmentsOf.sum_take_lengths hF j (by omega), List.getElem_map,
      hF.length_payload_of_lt (by omega), Nat.succ_mul]

/-- Fragment `j` starts `j` times `MTU_UDP` bytes into the UDP packet. -/
theorem FragmentsOf.fragOffset_getElem (hF : FragmentsOf mtu U src dst id ps) {j : Nat}
    (hj : j < ps.length) : fragOffset ps[j] = j * mtu := by
  rw [hF.fragOffset_eq j hj, hF.sum_take_lengths j hj]

theorem FragmentsOf.length_eq (hF : FragmentsOf mtu U src dst id ps) {j : Nat}
    (hj : j + 1 = ps.length) : U.length = j * mtu + (payload ps[j]).length := by
  have hl : j < (ps.map fun q => (payload q).length).length := by simp; omega
  have h := List.sum_take_succ _ j hl
  rw [hj, List.take_of_length_le (by simp), ← List.map_take, hF.sum_take_lengths j (by omega),
    List.getElem_map] at h
  rw [← h, ← hF.payloads_flatten, List.length_flatten, List.map_map]
  rfl

theorem getElem_mem_getLast {ps : List Bytes} {j : Nat} (hj : j + 1 = ps.length) :
    ps[j] ∈ ps.getLast? := by
  have h : ps.length - 1 = j := by omega
  simp [List.getLast?_eq_getElem?, h]

/-- Full fragments and a non-empty last one number `⌈|U| / mtu⌉`. -/
theorem FragmentsOf.length_eq_ceil (hF : FragmentsOf mtu U src dst id ps) (hmtu : 0 < mtu)
    (hlast : ∀ q ∈ ps.getLast?, payload q ≠ []) :
    ps.length = (U.length + mtu - 1) / mtu ∧ ∀ q ∈ ps, payload q ≠ [] := by
  obtain ⟨j, hj⟩ : ∃ j, j + 1 = ps.length := ⟨ps.length - 1, by have := List.length_pos.2 hF.ne_nil; omega⟩
  have hlen := hF.length_eq hj
  have hle := hF.payload_length_le _ (List.getElem_mem (show j < ps.length by omega))
  have hpos := List.length_pos.2 (hlast _ (getElem_mem_getLast hj))
  refine ⟨?_, List.forall_mem_iff_getElem.2 fun i hi => ?_⟩
  · rw [← hj, hlen]
    exact (Nat.div_eq_of_lt_le (by rw [Nat.succ_mul]; omega) (by rw [Nat.succ_mul, Nat.succ_mul]; omega)).symm
  · rcases Nat.lt_or_ge i j with h | h
    · exact List.ne_nil_of_length_pos (by rw [hF.length_payload_of_lt (by omega)]; exact hmtu)
    · obtain rfl : i = j := by omega
      exact List.ne_nil_of_length_pos hpos

end Lengths

/-- How many packets `fragment_large_udp_packet` makes of `n` bytes: one, with MF clear and offset
0, for `n < MTU_UDP`; `⌈n / MTU_UDP⌉` non-empty fragments for `n > MTU_UDP`; and for `n = MTU_UDP`,
where the test `remaining_len < end_len` fails and the loop finds nothing left, a full first
fragment and an empty last one. -/
theorem fragmentLargeUdpPacket_boundary (cfg : Config) (u : Bytes) (src dst : Ipv4Address)
    (packetId seed : UInt16) (hu : 20 + u.length ≤ 65535) :
    ∃ ps, (fragmentLargeUdpPacket cfg u src dst packetId seed).1 = .ok ps ∧
      (u.length < cfg.mtuUdp → ∃ p, ps = [p] ∧ moreFrags p = false ∧ fragOffset p = 0) ∧
      (cfg.mtuUdp < u.length →
        ps.length = (u.length + cfg.mtuUdp - 1) / cfg.mtuUdp ∧ ∀ q ∈ ps, payload q ≠ []) ∧
      (u.length = cfg.mtuUdp → ∃ p q, ps = [p, q] ∧ payload p = u ∧ moreFrags p = true ∧
        payload q = [] ∧ moreFrags q = false ∧ fragOffset q = cfg.mtuUdp) := by
  have hmtu := cfg.mtuUdp_pos
  obtain ⟨ps, hps, hF, h2, hlast⟩ := fragmentLargeUdpPacket_fragments cfg u src dst packetId seed hu
  obtain ⟨j, hj⟩ : ∃ j, j + 1 = ps.length := ⟨ps.length - 1, by have := List.length_pos.2 hF.ne_nil; omega⟩
  have hlen := hF.length_eq hj
  refine ⟨ps, hps, fun hshort => ?_, fun hlong => hF.length_eq_ceil hmtu (hlast hlong),
    fun heq => ?_⟩
  case refine_1 =>
    -- `j` full fragments fit in fewer than `MTU_UDP` bytes only when there are none
    obtain rfl : j = 0 := by
      have : j * cfg.mtuUdp < 1 * cfg.mtuUdp := by omega
      exact Nat.lt_one_iff.1 (Nat.lt_of_mul_lt_mul_right this)
    obtain ⟨p, rfl⟩ := List.length_eq_one.1 hj.symm
    exact ⟨p, rfl, hF.moreFrags_getLast p rfl, by simpa using hF.fragOffset_eq 0 (by simp)⟩
  case refine_2 =>
    -- at least two packets, the first a full one, leave nothing for the last
    obtain rfl : j = 1 := by
      have : j * cfg.mtuUdp = 1 * cfg.mtuUdp := by
        have := Nat.le_mul_of_pos_left cfg.mtuUdp (show 0 < j by have := h2 heq.ge; omega)
        omega
      exact Nat.eq_of_mul_eq_mul_right hmtu this
    obtain ⟨p, q, rfl⟩ := List.length_eq_two.1 hj.symm
    have hp : (payload p).length = cfg.mtuUdp := hF.length_payload_of_lt (j := 0) (by simp)
    have hq : payload q = [] := List.eq_nil_of_length_eq_zero (by simp at hlen; omega)
    have hflat := hF.payloads_flatten
    simp only [List.map_cons, List.map_nil, List.flatten_cons, List.flatten_nil, hq,
      List.append_nil] at hflat
    exact ⟨p, q, rfl, hflat, hF.moreFrags_dropLast p (by simp), hq, hF.moreFrags_getLast q rfl,
      by simpa using hF.fragOffset_getElem (j := 1) (by simp)⟩

theorem fragmentLargeUdpPacket_boundary_mtu :
    20 + (List.replicate 16 (0 : UInt8)).length ≤ 65535 ∧
      ∃ ps, (fragmentLargeUdpPacket Config.small (List.replicate 16 0) ⟨10, 0, 0, 1⟩ ⟨10, 0, 0, 2⟩ 0
          42).1 = .ok ps ∧
        ((List.replicate 16 (0 : UInt8)).length < Config.small.mtuUdp →
          ∃ p, ps = [p] ∧ moreFrags p = false ∧ fragOffset p = 0) ∧
        (Config.small.mtuUdp < (List.replicate 16 (0 : UInt8)).length →
          ps.length = ((List.replicate 16 (0 : UInt8)).length + Config.small.mtuUdp - 1) /
            Config.small.mtuUdp ∧ ∀ q ∈ ps, payload q ≠ []) ∧
        ((List.replicate 16 (0 : UInt8)).length = Config.small.mtuUdp → ∃ p q, ps = [p, q] ∧
          payload p = List.replicate 16 0 ∧ moreFrags p = true ∧ payload q = [] ∧
          moreFrags q = false ∧ fragOffset q = Config.small.mtuUdp) :=
  ⟨by decide, fragmentLargeUdpPacket_boundary Config.small _ _ _ 0 42 (by decide)⟩

end Rustwall
