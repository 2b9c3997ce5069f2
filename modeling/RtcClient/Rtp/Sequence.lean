import Mathlib.Data.List.Chain
import Mathlib.Data.Option.Basic
import RtcClient.Lib.Runs
import RtcClient.Rtp.Packing
import RtcClient.Rtp.SessionVideo
/-!
# Sequence numbers on the wire

What the receiver reads from the packets of a frame (`parse_sent`), and how the
sequence numbers go on from frame to frame: the session writes 0 over their high
half, so they count modulo 65536.
-/

namespace RtcClient

open Lib

namespace RTPSessionVideo

/-! ## One packet -/

/-- The headers of a packet as it is sent. -/
def sentHeader (num : Nat) (now_ms : UInt32) (isLast : Bool) (ssrc sequence : UInt32) :
    RTPHeader × RTPExtensionHeader :=
  (⟨0, 1, 0, 2, 96, if isLast then 1 else 0, sequence.toNat % 65536, now_ms.toNat, ssrc.toNat⟩, ⟨0, 3, num, 0, 0, 0⟩)

theorem marker_bit : UInt8.ofNat (96 + 0 * 128) ||| 0x80 = UInt8.ofNat (96 + 1 * 128) := by decide

theorem rewrite_packet (num : Nat) (now_ms : UInt32) (isLast : Bool) (ssrc timestamp sequence : UInt32) (p : Bytes) :
    rewrite num now_ms isLast (packetHeader ssrc timestamp sequence ++ p) =
      (sentHeader num now_ms isLast ssrc sequence).1.bytes ++ (sentHeader num now_ms isLast ssrc sequence).2.bytes ++
        p := by
  have hlen : (packetHeader ssrc timestamp sequence ++ p).length = 28 + p.length := by simp
  simp only [rewrite]
  cases isLast with
  | false =>
    rw [if_neg (by simp), splice_eq, splice_eq, splice_eq]
    · rfl
    all_goals simp only [splice_length, hlen, be16_length, be32_length]
    all_goals omega
  | true =>
    rw [if_pos rfl, splice_eq _ 4, splice_eq _ 1, splice_eq _ 18, splice_eq]
    · simp only [sentHeader, if_true, RTPHeader.bytes, ← marker_bit]
      rfl
    all_goals simp only [splice_length, hlen, be16_length, be32_length, List.length_singleton]
    all_goals omega

theorem sentHeader_plain {num : Nat} (hn : num < 256) (now_ms : UInt32) (isLast : Bool) (ssrc sequence : UInt32) :
    RTPPacket.Plain (sentHeader num now_ms isLast ssrc sequence).1
      (sentHeader num now_ms isLast ssrc sequence).2 := by
  have hmarker : (if isLast then 1 else 0) < 2 := by cases isLast <;> decide
  exact RTPPacket.plain_of_fits (by decide) hmarker (Nat.mod_lt _ (by decide)) now_ms.toNat_lt ssrc.toNat_lt
    (by omega) (by decide)

/-- What the receiver makes of the `i`-th packet. -/
def sentPacket (payloads : List Bytes) (now_ms ssrc sequence : UInt32) (beyond : Bytes) (i : Nat) (p : Bytes) :
    RTPPacket :=
  .parsed (sentHeader (payloads.length % 256) now_ms (i + 1 = payloads.length) ssrc (sequence + UInt32.ofNat i)).1
    (sentHeader (payloads.length % 256) now_ms (i + 1 = payloads.length) ssrc (sequence + UInt32.ofNat i)).2 p beyond

/-- The packets of a frame as they are handed to the transmitter. -/
theorem rewrite_packets_stamp (now_ms ssrc timestamp sequence : UInt32) (ps : List Bytes) :
    rewrite_packets now_ms (stamp ssrc timestamp sequence ps) =
      ps.mapIdx (fun i p =>
        (sentHeader (ps.length % 256) now_ms (i + 1 = ps.length) ssrc (sequence + UInt32.ofNat i)).1.bytes ++
        (sentHeader (ps.length % 256) now_ms (i + 1 = ps.length) ssrc (sequence + UInt32.ofNat i)).2.bytes ++ p) := by
  rw [rewrite_packets, stamp_eq_mapIdx, List.mapIdx_mapIdx, List.length_mapIdx]
  simp only [Function.comp_def, rewrite_packet]

/-- The receiver reads the packets of a frame as they were meant. -/
theorem parse_sent (now_ms ssrc timestamp sequence : UInt32) {ps : List Bytes} (hl : ∀ p ∈ ps, p.length < 2 ^ 64)
    (q : RTPPacket) (beyond : Bytes) :
    (rewrite_packets now_ms (stamp ssrc timestamp sequence ps)).map (fun d => q.parse ⟨d, beyond⟩ d.length) =
      ps.mapIdx (fun i p => (sentPacket ps now_ms ssrc sequence beyond i p, true)) := by
  rw [rewrite_packets_stamp]
  apply List.ext_getElem
  · simp
  · intro i h1 h2
    simp only [List.length_map, List.length_mapIdx] at h1
    have hn : ps.length % 256 < 256 := Nat.mod_lt _ (by decide)
    simp only [List.getElem_map, List.getElem_mapIdx, List.length_append, RTPHeader.bytes_length,
      RTPExtensionHeader.bytes_length]
    exact RTPPacket.parse_plain q (sentHeader_plain hn _ _ _ _) _ _ (hl _ (List.getElem_mem _))

/-! ## Counting packets -/

/-- How many packets the NAL units of these lengths take. `waiting`: smaller ones, of
`totalLen` bytes, wait to be packed together. -/
def packetCount (waiting : Bool) (totalLen : Nat) : List Nat → Nat
  | [] => waiting.toNat
  | len :: rest =>
    if len > RTP_PAYLOAD_SIZE then waiting.toNat + (len - 1 + 1369) / 1370 + packetCount false 0 rest
    else if totalLen < RTP_PAYLOAD_SIZE ∧ RTP_PAYLOAD_SIZE < totalLen + len then
      waiting.toNat + packetCount true len rest
    else packetCount true (totalLen + len) rest

theorem pending_length (tmp : List Bytes) :
    ((pending tmp).flatMap Chunk.payloads).length = (decide (tmp ≠ [])).toNat := by
  match tmp with
  | [] => rfl
  | [n] => rfl
  | n :: m :: ns => rfl

theorem chunks_length (nalus : List Bytes) :
    ∀ tmp totalLen, ((chunks tmp totalLen nalus).flatMap Chunk.payloads).length =
      packetCount (decide (tmp ≠ [])) totalLen (nalus.map List.length) := by
  induction nalus with
  | nil => intro tmp totalLen; exact pending_length tmp
  | cons nalu rest ih =>
    intro tmp totalLen
    rw [chunks, List.map_cons, packetCount]
    split_ifs with h1 h2
    · have hlen : nalu.tail.length = nalu.length - 1 := List.length_tail
      have hne : nalu.tail ≠ [] := by
        rw [← List.length_pos_iff, hlen]
        simp only [RTP_PAYLOAD_SIZE, RTP_PACKET_SIZE, sizeofRTPHeader, sizeofRTPExtensionHeader] at h1
        omega
      simp only [List.flatMap_append, List.flatMap_cons, List.length_append, pending_length, ih, Chunk.payloads,
        fragments_length _ _ _ _ hne, hlen]
      simp [Nat.add_assoc]
    · simp only [List.flatMap_append, List.length_append, pending_length, ih]
      simp
    · rw [ih]
      simp

/-! ## Runs -/

/-- One call of `send_h264_data`. -/
structure SendCall where
  data : Buffer
  addr : Nat
  length : Nat
  now_ms : UInt32
  sendto : Nat → IPAddrV4 → Int

def send (s : RTPSessionVideo) (c : SendCall) : RTPSessionVideo × List Bytes × Bool :=
  s.send_h264_data c.data c.addr c.length c.now_ms c.sendto

/-- A session `init` has set up and that has got its destinations. -/
def started (sequenceStart : UInt16) (timestampStart ssrc : UInt32) (port : Nat) (destinations : List (Bytes × Nat)) :
    RTPSessionVideo :=
  destinations.foldl (fun s d => (s.add_destination d.1 d.2).1)
    (init {} sequenceStart timestampStart ssrc true port true).1

/-- What the calls have handed to the transmitter, in order. -/
def datagrams (s : RTPSessionVideo) (calls : List SendCall) : List Bytes := (trace send s calls).flatMap (·.2.1)

/-- The sequence number the receiver reads from a datagram it accepts. -/
def sequenceOf (d : Bytes) : Option Nat :=
  let r := RTPPacket.reset.parse ⟨d, []⟩ d.length
  if r.2 then some r.1.m_sequence else none

/-- All datagrams are accepted, and each has the sequence number after that of the one before. -/
def Consecutive (ds : List Bytes) : Prop :=
  ∃ ns : List Nat, ds.map sequenceOf = ns.map some ∧ ns.IsChain (fun a b => b = a + 1)

/-- How many packets a call takes, from the lengths of its NAL units. -/
def SendCall.packets (c : SendCall) : Nat :=
  packetCount false 0 ((RTPH264PacketBuilder.send_data {} c.data c.addr c.length).1.m_nalu_vec.map List.length)

/-- A session that can send, with its builder. -/
structure Sending (s : RTPSessionVideo) (b : RTPH264PacketBuilder) : Prop where
  init : s.m_initialize = true
  builder : s.m_h264_rtp_builder = some b
  transmitter : ∃ t, s.m_transmitter = some t

section
variable {s : RTPSessionVideo} {b : RTPH264PacketBuilder}

theorem send_loop_all {t : RTPTransmitterV4} {sendto : Nat → IPAddrV4 → Int} {packets : List Bytes} {i : Nat}
    (h : (send_loop t sendto i packets).2 = true) : (send_loop t sendto i packets).1 = packets := by
  induction packets generalizing i with
  | nil => rfl
  | cons p ps ih =>
    rw [send_loop] at h ⊢
    split at h
    · rename_i hs
      rw [if_pos hs]
      simp only at h ⊢
      rw [ih h]
    · simp at h

/-- A call that returns true has sent all packets of its frame. -/
theorem send_true (hs : Sending s b) {c : SendCall} (hok : (send s c).2.2 = true) :
    ∃ b' packets, (b.send_data c.data c.addr c.length).1.receive_rtp_packets [] = (b', packets, true) ∧
      (send s c).1 = { s with m_h264_rtp_builder := some b' } ∧
      (send s c).2.1 = rewrite_packets c.now_ms packets := by
  obtain ⟨t, ht⟩ := hs.transmitter
  simp only [send, send_h264_data, hs.init, hs.builder, ht, RTPH264PacketBuilder.send_data] at hok ⊢
  generalize hr : RTPH264PacketBuilder.receive_rtp_packets _ [] = r at hok ⊢
  obtain ⟨b', packets, ok⟩ := r
  cases ok with
  | false => simp at hok
  | true => exact ⟨b', packets, rfl, rfl, send_loop_all hok⟩

/-- The sequence numbers of one call's packets. -/
theorem send_sequences (hs : Sending s b) {c : SendCall} (hok : (send s c).2.2 = true) :
    ∃ b', Sending (send s c).1 b' ∧ b'.m_sequence = b.m_sequence + UInt32.ofNat c.packets ∧
      (send s c).2.1.map sequenceOf =
        (List.range c.packets).map (fun i => some ((b.m_sequence.toNat + i) % 65536)) := by
  obtain ⟨b', packets, hr, hs', hd⟩ := send_true hs hok
  have hbuilt := RTPH264PacketBuilder.receive_rtp_packets_built hr
  have hbytes := RTPH264PacketBuilder.receive_rtp_packets_bytes hr
  have hcount : ((chunks [] 0 (b.send_data c.data c.addr c.length).1.m_nalu_vec).flatMap Chunk.payloads).length =
      c.packets := chunks_length _ [] 0
  generalize (chunks [] 0 (b.send_data c.data c.addr c.length).1.m_nalu_vec).flatMap Chunk.payloads = ps
    at hbuilt hcount hbytes
  refine ⟨b', ⟨by rw [hs']; exact hs.init, by rw [hs'], by rw [hs']; exact hs.transmitter⟩, ?_, ?_⟩
  · rw [hbuilt.sequence, hcount]; rfl
  · have hlen : ∀ p ∈ ps, p.length < 2 ^ 64 := by
      intro p hp
      have := le_packetBytes hp
      simp only [RTP_PACKETS_BUFFER_SIZE] at hbytes
      omega
    have hparse := parse_sent c.now_ms b.m_ssrc b.m_timestamp b.m_sequence hlen .reset []
    have hpk : packets = stamp b.m_ssrc b.m_timestamp b.m_sequence ps := hbuilt.packets
    rw [hd, hpk]
    have hmap := congrArg (List.map (fun r : RTPPacket × Bool => if r.2 then some r.1.m_sequence else none)) hparse
    rw [List.map_map] at hmap
    refine hmap.trans (List.ext_getElem (by simp [hcount]) ?_)
    intro i h1 h2
    simp only [List.getElem_map, List.getElem_mapIdx, List.getElem_range, if_true]
    congr 1
    simp only [sentPacket, RTPPacket.parsed, sentHeader, toNat_add_ofNat]
    omega

/-- The sequence numbers of a run count modulo 65536. -/
theorem run_sequences (calls : List SendCall) :
    ∀ (s : RTPSessionVideo) (b : RTPH264PacketBuilder), Sending s b → (∀ r ∈ trace send s calls, r.2.2 = true) →
      (datagrams s calls).map sequenceOf =
        (List.range (calls.map SendCall.packets).sum).map (fun i => some ((b.m_sequence.toNat + i) % 65536)) := by
  induction calls with
  | nil => intro s b _ _; rfl
  | cons c calls ih =>
    intro s b hs hok
    obtain ⟨b', hs', hseq, hmap⟩ := send_sequences hs (hok (c, (send s c).2) (by simp))
    have hrest := ih (send s c).1 b' hs' (fun r hr => hok r (by simp [hr]))
    have hd : datagrams s (c :: calls) = (send s c).2.1 ++ datagrams (send s c).1 calls := rfl
    have hshift : ∀ i, (b'.m_sequence.toNat + i) % 65536 = (b.m_sequence.toNat + (c.packets + i)) % 65536 := by
      intro i
      rw [hseq, toNat_add_ofNat]
      omega
    rw [hd, List.map_append, hmap, hrest, List.map_cons, List.sum_cons, List.range_add, List.map_append, List.map_map]
    simp only [Function.comp_def, hshift]

end

/-- Counting modulo 65536 goes up by one each time exactly if it does not get to 65536. -/
theorem isChain_mod_iff {start n : Nat} (hs : start < 65536) :
    ((List.range n).map (fun i => (start + i) % 65536)).IsChain (fun a b => b = a + 1) ↔ start + n ≤ 65536 := by
  rw [List.isChain_iff_getElem]
  simp only [List.length_map, List.length_range, List.getElem_map, List.getElem_range]
  constructor
  · intro h
    by_contra hlt
    have := h (65535 - start) (by omega)
    omega
  · intro h i hi
    omega

theorem started_sending (sequenceStart : UInt16) (timestampStart ssrc : UInt32) (port : Nat)
    (destinations : List (Bytes × Nat)) :
    ∃ b, Sending (started sequenceStart timestampStart ssrc port destinations) b ∧
      b.m_sequence = sequenceStart.toUInt32 := by
  -- Adding a destination changes the transmitter only.
  have hadd : ∀ (ds : List (Bytes × Nat)) (s : RTPSessionVideo) (b : RTPH264PacketBuilder), Sending s b →
      Sending (ds.foldl (fun s d => (s.add_destination d.1 d.2).1) s) b := by
    intro ds
    induction ds with
    | nil => intro s b h; exact h
    | cons d ds ih =>
      intro s b h
      obtain ⟨t, ht⟩ := h.transmitter
      refine ih _ b ⟨?_, ?_, t.add_destination d.1 d.2, ?_⟩ <;> simp only [add_destination, h.init, if_true]
      · exact h.builder
      · rw [ht]; rfl
  exact ⟨_, hadd destinations _ _ ⟨rfl, rfl, _, rfl⟩, rfl⟩

/-- In a run of successful calls the sequence numbers increase by one from datagram to
datagram exactly if the packets end before number 65536. -/
theorem consecutive_iff (sequenceStart : UInt16) (timestampStart ssrc : UInt32) (port : Nat)
    (destinations : List (Bytes × Nat)) (calls : List SendCall)
    (hok : ∀ r ∈ trace send (started sequenceStart timestampStart ssrc port destinations) calls, r.2.2 = true) :
    Consecutive (datagrams (started sequenceStart timestampStart ssrc port destinations) calls) ↔
      sequenceStart.toNat + (calls.map SendCall.packets).sum ≤ 65536 := by
  obtain ⟨b, hs, hseq⟩ := started_sending sequenceStart timestampStart ssrc port destinations
  have hrun := run_sequences calls _ b hs hok
  have hstart : b.m_sequence.toNat = sequenceStart.toNat := by rw [hseq]; rfl
  have hlt := sequenceStart.toNat_lt
  rw [hstart] at hrun
  rw [← isChain_mod_iff hlt]
  have hmap : (List.range (calls.map SendCall.packets).sum).map (fun i => some ((sequenceStart.toNat + i) % 65536)) =
      ((List.range (calls.map SendCall.packets).sum).map (fun i => (sequenceStart.toNat + i) % 65536)).map some := by
    rw [List.map_map]; rfl
  rw [hmap] at hrun
  constructor
  · rintro ⟨ns, hns, hchain⟩
    rw [hrun] at hns
    rwa [List.map_injective_iff.2 (Option.some_injective _) hns]
  · intro h
    exact ⟨_, hrun, h⟩

/-- A frame of one NAL unit. -/
def oneNalu : SendCall where
  data := ⟨[0, 0, 1, 0x65, 0x88], []⟩
  addr := 0
  length := 5
  now_ms := 0
  sendto := fun _ _ => 30

theorem consecutive_two : Consecutive (datagrams (started 7 0 1 5000 [([49], 9)]) [oneNalu, oneNalu]) :=
  (consecutive_iff 7 0 1 5000 [([49], 9)] [oneNalu, oneNalu] (by decide +kernel)).2 (by decide +kernel)

/-- After sequence number 65535 the next frame starts again at 0. -/
theorem not_consecutive_wrap :
    (∀ r ∈ trace send (started 65535 0 1 5000 [([49], 9)]) [oneNalu, oneNalu], r.2.2 = true) ∧
      ¬ Consecutive (datagrams (started 65535 0 1 5000 [([49], 9)]) [oneNalu, oneNalu]) := by
  refine ⟨by decide +kernel, ?_⟩
  rintro ⟨ns, hns, hchain⟩
  have hd : (datagrams (started 65535 0 1 5000 [([49], 9)]) [oneNalu, oneNalu]).map sequenceOf =
      [65535, 0].map some := by decide +kernel
  rw [hd] at hns
  rw [← List.map_injective_iff.2 (Option.some_injective _) hns] at hchain
  exact absurd hchain (by decide)

end RTPSessionVideo

end RtcClient
