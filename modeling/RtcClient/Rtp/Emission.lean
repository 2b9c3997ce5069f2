import RtcClient.Rtp.Packing
import RtcClient.Rtp.SessionAudio
/-!
# The packets as they leave the builders

`RTPPacket::parse` reads the headers of both builders as they were meant, whatever the
sequence number (`headers_agree`). The fragments of a NAL unit are marked first and last
where they are, and nowhere else (`fragments_marked`).
-/

namespace RtcClient

open Lib

/-! ## Headers -/

/-- What `parse` has made of a packet: it is accepted, it has these values, and its payload is all
that follows the headers. -/
structure ReadsAs (packet : Bytes) (payloadType sequence : Nat) (timestamp ssrc : UInt32) (r : RTPPacket × Bool) :
    Prop where
  accepted : r.2 = true
  sequence : r.1.m_sequence = sequence
  timestamp : r.1.m_timestamp = timestamp.toNat
  ssrc : r.1.m_ssrc = ssrc.toNat
  payloadType : r.1.m_payload_type = payloadType
  marker : r.1.m_marker = false
  padding : r.1.m_padding = false
  csrcs : r.1.m_csrc_count = 0
  payload : r.1.m_payload.read 0 r.1.m_payload_len = packet.drop 28

/-- The sequence number is split into its halves and put together again. -/
theorem halves_sequence (sequence : UInt32) :
    sequence.toNat / 65536 % 65536 * 65536 + sequence.toNat % 65536 = sequence.toNat := by
  have hlt := sequence.toNat_lt
  omega

/-- The headers of both builders. -/
def headers (payloadType : Nat) (ssrc timestamp sequence : UInt32) : Bytes :=
  RTPHeader.bytes ⟨0, 1, 0, 2, payloadType, 0, sequence.toNat % 65536, timestamp.toNat, ssrc.toNat⟩ ++
    RTPExtensionHeader.bytes ⟨0, 3, 0, sequence.toNat / 65536 % 65536, 0, 0⟩

@[simp] theorem headers_length (payloadType : Nat) (ssrc timestamp sequence : UInt32) :
    (headers payloadType ssrc timestamp sequence).length = 28 := rfl

theorem headers_plain {payloadType : Nat} (htype : payloadType < 128) (ssrc timestamp sequence : UInt32) :
    RTPPacket.Plain ⟨0, 1, 0, 2, payloadType, 0, sequence.toNat % 65536, timestamp.toNat, ssrc.toNat⟩
      ⟨0, 3, 0, sequence.toNat / 65536 % 65536, 0, 0⟩ := by
  have hlow : sequence.toNat % 65536 < 2 ^ 16 := Nat.mod_lt _ (by decide)
  have hhigh : sequence.toNat / 65536 % 65536 < 2 ^ 16 := Nat.mod_lt _ (by decide)
  exact RTPPacket.plain_of_fits htype (by decide) hlow timestamp.toNat_lt ssrc.toNat_lt (by decide) hhigh

/-- They are read as they were meant. The payload is the first `k` bytes of what follows them. -/
theorem parse_headers (p : RTPPacket) {payloadType : Nat} (htype : payloadType < 128)
    (ssrc timestamp sequence : UInt32) (memory beyond : Bytes) {k : Nat} (hk : k < 2 ^ 64) (hle : k ≤ memory.length) :
    ReadsAs (headers payloadType ssrc timestamp sequence ++ memory.take k) payloadType sequence.toNat timestamp ssrc
      (p.parse ⟨headers payloadType ssrc timestamp sequence ++ memory, beyond⟩ (28 + k)) := by
  have hparse := RTPPacket.parse_plain_at p (headers_plain htype ssrc timestamp sequence) memory beyond hk
  have hpayload : Buffer.read ⟨memory, beyond⟩ 0 k =
      (headers payloadType ssrc timestamp sequence ++ memory.take k).drop 28 := by
    rw [Buffer.read_eq _ (by rwa [Nat.zero_add]), List.drop_zero]
    exact (List.drop_left' (headers_length _ _ _ _)).symm
  unfold headers at hpayload ⊢
  rw [hparse]
  exact
    { accepted := rfl
      sequence := halves_sequence sequence
      timestamp := rfl
      ssrc := rfl
      payloadType := rfl
      marker := rfl
      padding := rfl
      csrcs := rfl
      payload := hpayload }

/-- A packet that ends with its payload. -/
theorem parse_packet (p : RTPPacket) {payloadType : Nat} (htype : payloadType < 128)
    (ssrc timestamp sequence : UInt32) {payload : Bytes} (beyond : Bytes) (hlen : payload.length < 2 ^ 64) :
    ReadsAs (headers payloadType ssrc timestamp sequence ++ payload) payloadType sequence.toNat timestamp ssrc
      (p.parse ⟨headers payloadType ssrc timestamp sequence ++ payload, beyond⟩
        (headers payloadType ssrc timestamp sequence ++ payload).length) := by
  have hreads := parse_headers p htype ssrc timestamp sequence payload beyond hlen (Nat.le_refl payload.length)
  rwa [List.take_length, ← headers_length payloadType ssrc timestamp sequence, ← List.length_append] at hreads

/-- The packets of one call. The builder's sequence number is `sequence` before it and `next` after it. -/
structure EmittedAs (payloadType : Nat) (timestamp ssrc sequence next : UInt32) (packets : List Bytes) : Prop where
  reads : ∀ (p : RTPPacket) (beyond : Bytes) (i : Nat) (hi : i < packets.length),
    ReadsAs packets[i] payloadType ((sequence.toNat + i) % 2 ^ 32) timestamp ssrc
      (p.parse ⟨packets[i], beyond⟩ packets[i].length)
  advanced : next.toNat = (sequence.toNat + packets.length) % 2 ^ 32

/-- Any payloads with consecutive sequence numbers. -/
theorem stamp_emitted {payloads : List Bytes} (hlen : ∀ p ∈ payloads, p.length < 2 ^ 64)
    (ssrc timestamp sequence : UInt32) :
    EmittedAs 96 timestamp ssrc sequence (sequence + UInt32.ofNat payloads.length)
      (stamp ssrc timestamp sequence payloads) := by
  rw [stamp_eq_mapIdx]
  refine ⟨fun p beyond i hi => ?_, ?_⟩
  · rw [List.length_mapIdx] at hi
    rw [List.getElem_mapIdx, ← toNat_add_ofNat]
    exact parse_packet p (by decide) _ _ _ beyond (hlen _ (List.getElem_mem hi))
  · rw [List.length_mapIdx, toNat_add_ofNat]

/-- A successful call of the H.264 builder. -/
theorem h264_emitted {b b' : RTPH264PacketBuilder} {vec vec' : List Bytes}
    (h : b.receive_rtp_packets vec = (b', vec', true)) :
    ∃ packets, vec' = vec ++ packets ∧ EmittedAs 96 b.m_timestamp b.m_ssrc b.m_sequence b'.m_sequence packets := by
  have hbuilt := RTPH264PacketBuilder.receive_rtp_packets_built h
  have hbytes := RTPH264PacketBuilder.receive_rtp_packets_bytes h
  refine ⟨_, hbuilt.packets, ?_⟩
  rw [hbuilt.sequence]
  apply stamp_emitted
  intro p hp
  have hle := le_packetBytes hp
  simp only [RTP_PACKETS_BUFFER_SIZE] at hbytes
  omega

/-- An accepted payload of the AAC builder. -/
theorem aac_emitted {b b' : RTPAACPacketBuilder} {data : Buffer} {len : Nat} (h : b.send_data data len = (b', true)) :
    EmittedAs 97 b.m_timestamp b.m_ssrc b.m_sequence b'.m_sequence [b'.receive_rtp_packet] := by
  unfold RTPAACPacketBuilder.send_data at h
  split at h
  · cases h
  · rename_i hsmall
    obtain ⟨rfl, -⟩ := Prod.mk.inj h
    have hread : (data.read 0 len).length = len := Buffer.read_length _ _ _
    refine ⟨fun p beyond i hi => ?_, toNat_add_ofNat b.m_sequence 1⟩
    obtain rfl : i = 0 := Nat.lt_one_iff.1 hi
    rw [Nat.add_zero, Nat.mod_eq_of_lt b.m_sequence.toNat_lt]
    apply parse_packet p (by decide) _ _ _ beyond
    simp only [AAC_RTP_PACKETS_BUFFER_SIZE, sizeofRTPHeader, sizeofRTPExtensionHeader] at hsmall
    omega

/-- `parse` reads what either builder has written, and the builder has counted its packets. -/
theorem headers_agree :
    (∀ (b b' : RTPH264PacketBuilder) (vec vec' : List Bytes), b.receive_rtp_packets vec = (b', vec', true) →
      ∃ packets, vec' = vec ++ packets ∧
        EmittedAs 96 b.m_timestamp b.m_ssrc b.m_sequence b'.m_sequence packets) ∧
    ∀ (b b' : RTPAACPacketBuilder) (data : Buffer) (len : Nat), b.send_data data len = (b', true) →
      EmittedAs 97 b.m_timestamp b.m_ssrc b.m_sequence b'.m_sequence [b'.receive_rtp_packet] :=
  ⟨fun _ _ _ _ h => h264_emitted h, fun _ _ _ _ h => aac_emitted h⟩

/-- A builder before its last sequence number, with a NAL unit of two fragments. -/
def lastNumber : RTPH264PacketBuilder :=
  { m_initialize := true, m_ssrc := 9, m_sequence := 0xFFFFFFFF, m_timestamp := 7,
    m_nalu_vec := [.replicate 1373 0x65] }

theorem headers_agree_wrap :
    (∃ packets, (lastNumber.receive_rtp_packets []).2.1 = [] ++ packets ∧
      EmittedAs 96 7 9 0xFFFFFFFF (lastNumber.receive_rtp_packets []).1.m_sequence packets) ∧
    EmittedAs 97 0 0 0 1 [(RTPAACPacketBuilder.send_data {} ⟨[0x21, 0x10], []⟩ 2).1.receive_rtp_packet] := by
  refine ⟨headers_agree.1 lastNumber _ [] _ ?_, headers_agree.2 {} _ ⟨[0x21, 0x10], []⟩ 2 rfl⟩
  have hok : (lastNumber.receive_rtp_packets []).2.2 = true := by decide +kernel
  generalize lastNumber.receive_rtp_packets [] = r at hok ⊢
  exact Prod.ext rfl (Prod.ext rfl hok)

/-! ## Fragments -/

/-- The first two bits of the FU header. -/
def mark (isStart isEnd : Bool) : UInt8 := if isStart then 0x80 else if isEnd then 0x40 else 0x00

/-- The bits of a fragment with the header `h` of its NAL unit. -/
theorem fua_bits (isStart isEnd : Bool) (hone : (isStart && isEnd) = false) (h : UInt8) :
    ((mark isStart isEnd ||| (h &&& 0x1F)) &&& 0x80 ≠ 0 ↔ isStart = true) ∧
      ((mark isStart isEnd ||| (h &&& 0x1F)) &&& 0x40 ≠ 0 ↔ isEnd = true) ∧
      (mark isStart isEnd ||| (h &&& 0x1F)) &&& 0x1F = h &&& 0x1F ∧
      ((h &&& 0xE0) ||| 0x1c) &&& 0x1F = 28 ∧ ((h &&& 0xE0) ||| 0x1c) &&& 0xE0 = h &&& 0xE0 := by
  revert h
  rcases isStart with _ | _ <;> rcases isEnd with _ | _
  · exact forall_byte (by decide +kernel)
  · exact forall_byte (by decide +kernel)
  · exact forall_byte (by decide +kernel)
  · cases hone

theorem fragments_ne_nil (fnri type : UInt8) (isStart : Bool) (body : Bytes) :
    fragments fnri type isStart body ≠ [] := by
  rw [fragments]
  exact List.cons_ne_nil _ _

/-- The `i`-th fragment of a body. -/
theorem fragments_getElem (fnri type : UInt8) (isStart : Bool) (body : Bytes) :
    ∀ i (hi : i < (fragments fnri type isStart body).length), body ≠ [] →
      ∃ piece, piece ≠ [] ∧ piece.length ≤ 1370 ∧
        (fragments fnri type isStart body)[i] =
          [fnri ||| 0x1c, mark (isStart && i == 0) (i + 1 == (fragments fnri type isStart body).length) ||| type] ++
            piece := by
  fun_induction fragments fnri type isStart body with
  | case1 isStart body ih =>
    intro i hi hne
    have hpos := List.length_pos_iff.2 hne
    cases i with
    | zero =>
      refine ⟨body.take 1370, ?_, List.length_take_le _ _, ?_⟩
      · rw [← List.length_pos_iff, List.length_take]
        omega
      · by_cases hlast : body.length ≤ 1370
        · cases isStart <;> simp [hlast, mark]
        · have hmore := fragments_ne_nil fnri type false (body.drop 1370)
          cases isStart <;> simp [hlast, mark, hmore]
    | succ i =>
      by_cases hlast : body.length ≤ 1370
      · simp [hlast] at hi
      · simp only [hlast, if_false, List.length_cons, Nat.add_lt_add_iff_right] at hi
        have hrest : body.drop 1370 ≠ [] := by
          rw [← List.length_pos_iff, List.length_drop]
          omega
        obtain ⟨piece, hpiece, hsize, hget⟩ := ih hlast i hi hrest
        refine ⟨piece, hpiece, hsize, ?_⟩
        simp only [hlast, if_false, List.getElem_cons_succ, hget]
        simp

theorem fragments_bodies (fnri type : UInt8) (isStart : Bool) (body : Bytes) :
    (fragments fnri type isStart body).flatMap (·.drop 2) = body := by
  fun_induction fragments fnri type isStart body with
  | case1 isStart body ih =>
    rw [List.flatMap_cons]
    by_cases hlast : body.length ≤ 1370
    · simp [hlast]
    · simp only [hlast, if_false]
      rw [ih hlast]
      simp

/-- The packets of a NAL unit with the header `h` and the rest `t`. -/
structure WellMarked (h : UInt8) (t : Bytes) (packets : List Bytes) : Prop where
  several : 2 ≤ packets.length
  startBit : ∀ i (hi : i < packets.length), packets[i].getD 29 0 &&& 0x80 ≠ 0 ↔ i = 0
  endBit : ∀ i (hi : i < packets.length), packets[i].getD 29 0 &&& 0x40 ≠ 0 ↔ i + 1 = packets.length
  indicatorType : ∀ p ∈ packets, p.getD 28 0 &&& 0x1F = 28
  indicatorFnri : ∀ p ∈ packets, p.getD 28 0 &&& 0xE0 = h &&& 0xE0
  headerType : ∀ p ∈ packets, p.getD 29 0 &&& 0x1F = h &&& 0x1F
  nonempty : ∀ p ∈ packets, p.drop 30 ≠ []
  size : ∀ p ∈ packets, p.length ≤ RTP_PACKET_SIZE
  bodies : packets.flatMap (·.drop 30) = t

theorem stamp_drop (ssrc timestamp : UInt32) (k : Nat) (payloads : List Bytes) :
    ∀ sequence, (stamp ssrc timestamp sequence payloads).flatMap (·.drop (28 + k)) = payloads.flatMap (·.drop k) := by
  induction payloads with
  | nil => intro sequence; rfl
  | cons p ps ih =>
    intro sequence
    have hdrop : (packetHeader ssrc timestamp sequence ++ p).drop (28 + k) = p.drop k := by
      rw [← List.drop_drop, List.drop_left' (packetHeader_length _ _ _)]
    rw [stamp, List.flatMap_cons, List.flatMap_cons, hdrop, ih]

/-- A packet with a fragment of the NAL unit that has the header `h`. -/
structure IsFragment (h : UInt8) (isStart isEnd : Bool) (packet : Bytes) : Prop where
  indicator : packet.getD 28 0 = (h &&& 0xE0) ||| 0x1c
  fuHeader : packet.getD 29 0 = mark isStart isEnd ||| (h &&& 0x1F)
  nonempty : packet.drop 30 ≠ []
  size : packet.length ≤ RTP_PACKET_SIZE

theorem IsFragment.of_piece {header : Bytes} (hheader : header.length = 28) (h : UInt8) (isStart isEnd : Bool)
    {piece : Bytes} (hpiece : piece ≠ []) (hsize : piece.length ≤ 1370) :
    IsFragment h isStart isEnd
      (header ++ ([(h &&& 0xE0) ||| 0x1c, mark isStart isEnd ||| (h &&& 0x1F)] ++ piece)) where
  indicator := by simp [List.getD_eq_getElem?_getD, hheader]
  fuHeader := by simp [List.getD_eq_getElem?_getD, List.getElem?_append_right, hheader]
  nonempty := by
    rw [← List.append_assoc, List.drop_left' (by simp [hheader])]
    exact hpiece
  size := by
    simp only [List.length_append, List.length_cons, List.length_nil, hheader, RTP_PACKET_SIZE]
    omega

/-- The `i`-th packet of a NAL unit in fragments. -/
theorem fua_packet (ssrc timestamp sequence : UInt32) (h : UInt8) {t : Bytes} (hne : t ≠ []) {i : Nat}
    {packets : List Bytes}
    (hpackets : packets = stamp ssrc timestamp sequence (fragments (h &&& 0xE0) (h &&& 0x1F) true t))
    (hi : i < packets.length) : IsFragment h (i == 0) (i + 1 == packets.length) packets[i] := by
  subst hpackets
  simp only [stamp_eq_mapIdx, List.length_mapIdx, List.getElem_mapIdx] at hi ⊢
  obtain ⟨piece, hpiece, hsize, hget⟩ := fragments_getElem (h &&& 0xE0) (h &&& 0x1F) true t i hi hne
  rw [hget, Bool.true_and]
  exact .of_piece (packetHeader_length _ _ _) h _ _ hpiece hsize

/-- A successful `build_fua_packet` of a NAL unit that does not fit one packet. -/
theorem fragments_marked {b b' : RTPH264PacketBuilder} {h : UInt8} {t : Bytes} {vec vec' : List Bytes}
    (hlong : RTP_PAYLOAD_SIZE < (h :: t).length) (hbuild : b.build_fua_packet (h :: t) vec = (b', vec', true)) :
    ∃ packets, vec' = vec ++ packets ∧ WellMarked h t packets := by
  have hbig : 1372 < t.length + 1 := hlong
  have hne : t ≠ [] := List.ne_nil_of_length_pos (by omega)
  have hbuilt := RTPH264PacketBuilder.build_fua_packet_built hbuild
  obtain ⟨packets, hpackets⟩ : ∃ packets, packets =
      stamp b.m_ssrc b.m_timestamp b.m_sequence (fragments (h &&& 0xE0) (h &&& 0x1F) true t) := ⟨_, rfl⟩
  refine ⟨packets, by rw [hpackets]; exact hbuilt.packets, ?_⟩
  have hcount : packets.length = (t.length + 1369) / 1370 := by
    rw [hpackets, stamp_eq_mapIdx, List.length_mapIdx, fragments_length _ _ _ _ hne]
  have hpacket := fun i (hi : i < packets.length) => fua_packet b.m_ssrc b.m_timestamp b.m_sequence h hne hpackets hi
  -- the first packet is not the last
  have hbits := fun i (hi : i < packets.length) => fua_bits (i == 0) (i + 1 == packets.length) (by
    rw [Bool.and_eq_false_iff]
    rcases i with _ | i
    · right
      simp
      omega
    · exact .inl rfl) h
  refine
    { several := by omega
      startBit := ?_
      endBit := ?_
      indicatorType := ?_
      indicatorFnri := ?_
      headerType := ?_
      nonempty := ?_
      size := ?_
      bodies := ?_ }
  · intro i hi
    rw [(hpacket i hi).fuHeader, (hbits i hi).1, beq_iff_eq]
  · intro i hi
    rw [(hpacket i hi).fuHeader, (hbits i hi).2.1, beq_iff_eq]
  · intro p hp
    obtain ⟨i, hi, rfl⟩ := List.getElem_of_mem hp
    rw [(hpacket i hi).indicator]
    exact (hbits i hi).2.2.2.1
  · intro p hp
    obtain ⟨i, hi, rfl⟩ := List.getElem_of_mem hp
    rw [(hpacket i hi).indicator]
    exact (hbits i hi).2.2.2.2
  · intro p hp
    obtain ⟨i, hi, rfl⟩ := List.getElem_of_mem hp
    rw [(hpacket i hi).fuHeader]
    exact (hbits i hi).2.2.1
  · intro p hp
    obtain ⟨i, hi, rfl⟩ := List.getElem_of_mem hp
    exact (hpacket i hi).nonempty
  · intro p hp
    obtain ⟨i, hi, rfl⟩ := List.getElem_of_mem hp
    exact (hpacket i hi).size
  · rw [hpackets, stamp_drop _ _ 2]
    exact fragments_bodies _ _ _ t

theorem fragments_marked_two :
    ∃ packets, (lastNumber.build_fua_packet (0x65 :: .replicate 1372 0x88) []).2.1 = [] ++ packets ∧
      WellMarked 0x65 (.replicate 1372 0x88) packets := by
  have hlong : RTP_PAYLOAD_SIZE < (0x65 :: List.replicate 1372 (0x88 : UInt8)).length := by
    rw [List.length_cons, List.length_replicate]
    decide
  have hok : (lastNumber.build_fua_packet (0x65 :: .replicate 1372 0x88) []).2.2 = true := by decide +kernel
  obtain ⟨b', vec', hbuild⟩ : ∃ b' vec',
      lastNumber.build_fua_packet (0x65 :: .replicate 1372 0x88) [] = (b', vec', true) :=
    ⟨_, _, Prod.ext rfl (Prod.ext rfl hok)⟩
  rw [hbuild]
  exact fragments_marked hlong hbuild

end RtcClient
