import RtcClient.Rtp.PacketLimits
import RtcClient.Rtp.Sequence
/-!
# The number of packets of a frame

Every packet of a frame carries their number in its extension header. It goes through a
`uint8_t` on its way into a field of 16 bits, so it is right for up to 255 packets
(`count_iff`), and a frame that fits the builder's buffer may have more.
-/

namespace RtcClient

open Lib

namespace RTPSessionVideo

/-- The `reserved` field of a datagram's extension header. -/
def reservedOf (d : Bytes) : Nat := (RTPExtensionHeader.cast (Buffer.advance ⟨d, []⟩ sizeofRTPHeader)).reserved

/-- A session that has sent something could send. -/
theorem sending_of_true {s : RTPSessionVideo} {c : SendCall} (hok : (send s c).2.2 = true) : ∃ b, Sending s b := by
  unfold send send_h264_data at hok
  split at hok
  · rename_i b t hinit hbuilder htransmitter
    exact ⟨b, hinit, hbuilder, t, htransmitter⟩
  · cases hok

theorem reserved_sent {num : Nat} (hn : num < 256) (now_ms : UInt32) (isLast : Bool) (ssrc sequence : UInt32)
    (p : Bytes) :
    reservedOf ((sentHeader num now_ms isLast ssrc sequence).1.bytes ++
      (sentHeader num now_ms isLast ssrc sequence).2.bytes ++ p) = num := by
  have hplain := sentHeader_plain hn now_ms isLast ssrc sequence
  have hadvance := Buffer.advance_append (sentHeader num now_ms isLast ssrc sequence).1.bytes
    ((sentHeader num now_ms isLast ssrc sequence).2.bytes ++ p) []
  rw [RTPHeader.bytes_length] at hadvance
  rw [reservedOf, sizeofRTPHeader, List.append_assoc, hadvance, RTPExtensionHeader.cast_bytes _ hplain.extFits]
  rfl

/-- What the packets of a frame carry, and how many they are. -/
theorem send_reserved {s : RTPSessionVideo} {c : SendCall} (hok : (send s c).2.2 = true) :
    (send s c).2.1.length = c.packets ∧ ∀ d ∈ (send s c).2.1, reservedOf d = c.packets % 256 := by
  obtain ⟨b, hs⟩ := sending_of_true hok
  obtain ⟨b', packets, hreceive, -, hsent⟩ := send_true hs hok
  have hbuilt := RTPH264PacketBuilder.receive_rtp_packets_built hreceive
  have hcount : ((chunks [] 0 (b.send_data c.data c.addr c.length).1.m_nalu_vec).flatMap Chunk.payloads).length =
      c.packets := chunks_length _ [] 0
  have hpackets := hbuilt.packets
  rw [List.nil_append] at hpackets
  rw [hsent, hpackets, rewrite_packets_stamp, hcount]
  refine ⟨by rw [List.length_mapIdx, hcount], ?_⟩
  intro d hd
  obtain ⟨i, hi, rfl⟩ := List.mem_mapIdx.1 hd
  exact reserved_sent (Nat.mod_lt _ (by decide)) _ _ _ _ _

/-- The packets of a successful call carry their number exactly if they are at most 255. -/
theorem count_iff (s : RTPSessionVideo) (c : SendCall) (hok : (send s c).2.2 = true) :
    (∀ d ∈ (send s c).2.1, reservedOf d = (send s c).2.1.length) ↔ c.packets ≤ 255 := by
  obtain ⟨hlen, hreserved⟩ := send_reserved hok
  rw [hlen]
  constructor
  · intro hcount
    by_contra hmany
    -- there is a first packet, and its field is a remainder
    obtain ⟨d, hd⟩ := List.exists_mem_of_length_pos (show 0 < (send s c).2.1.length by omega)
    have hd' := (hreserved d hd).symm.trans (hcount d hd)
    omega
  · intro hfew d hd
    rw [hreserved d hd]
    exact Nat.mod_eq_of_lt (by omega)

/-- A session with one destination. -/
def oneDestination : RTPSessionVideo := started 7 0 1 5000 [([49], 9)]

theorem count_one : oneNalu.packets = 1 ∧
    ∀ d ∈ (send oneDestination oneNalu).2.1, reservedOf d = (send oneDestination oneNalu).2.1.length :=
  ⟨by decide +kernel, (count_iff oneDestination oneNalu (by decide +kernel)).2 (by decide +kernel)⟩

/-! ## A frame with more -/

/-- NAL units that do not fit one packet are sent one after the other in fragments. -/
theorem chunks_long {ns : List Bytes} (h : ∀ n ∈ ns, RTP_PAYLOAD_SIZE < n.length) : chunks [] 0 ns = ns.map .fua := by
  induction ns with
  | nil => rfl
  | cons n ns ih =>
    rw [chunks, if_pos (h n (by simp)), ih (fun m hm => h m (by simp [hm]))]
    rfl

theorem packetBytes_flatMap (cs : List Chunk) :
    packetBytes (cs.flatMap Chunk.payloads) = (cs.map fun c => packetBytes c.payloads).sum := by
  induction cs with
  | nil => rfl
  | cons c cs ih => rw [List.flatMap_cons, packetBytes_append, ih, List.map_cons, List.sum_cons]

/-- What the transmitter takes is sent. -/
theorem send_loop_true {t : RTPTransmitterV4} {sendto : Nat → IPAddrV4 → Int} {packets : List Bytes}
    (h : ∀ i, ∀ p ∈ packets, t.send_data (sendto i) p = true) (i : Nat) :
    (send_loop t sendto i packets).2 = true := by
  induction packets generalizing i with
  | nil => rfl
  | cons p ps ih =>
    rw [send_loop, if_pos (h i p (by simp))]
    exact ih (fun j q hq => h j q (by simp [hq])) (i + 1)

theorem send_data_whole (t : RTPTransmitterV4) {p : Bytes} {n : Nat} (h : p.length ≤ n) :
    t.send_data (fun _ => n) p = true := by
  rw [RTPTransmitterV4.send_data, List.all_eq_true]
  intro addr _
  simp only [Bool.and_eq_true, bne_iff_ne, decide_eq_true_eq]
  omega

theorem rewrite_length (num : Nat) (now_ms : UInt32) (isLast : Bool) (packet : Bytes) :
    (rewrite num now_ms isLast packet).length = packet.length := by
  unfold rewrite
  cases isLast <;> simp

/-- An IDR slice one byte too long for a packet: it takes two. -/
def largeNalu : Bytes := .replicate 1373 0x65

theorem largeNalu_length : largeNalu.length = 1373 := List.length_replicate

theorem largeNalu_isNalu : IsNalu largeNalu := by
  have hnalu : IsNalu (0x65 :: List.replicate 1372 0x65) := by
    apply isNalu_of_nonzero (by decide) (by decide)
    · rw [← List.replicate_succ]
      intro x hx
      rw [List.eq_of_mem_replicate hx]
      decide
    · exact fun h => absurd h (by decide)
  exact hnalu

/-- A frame of `k` of them. -/
def slices (k : Nat) : SendCall where
  data := ⟨annexB (.replicate k (false, largeNalu)), []⟩
  addr := 0
  length := (annexB (.replicate k (false, largeNalu))).length
  now_ms := 0
  sendto := fun _ _ => 1400

theorem slices_nalus (b : RTPH264PacketBuilder) (k : Nat) :
    b.send_data (slices k).data (slices k).addr (slices k).length =
      ({ b with m_nalu_vec := .replicate k largeNalu }, true) := by
  have hunits : ∀ u ∈ List.replicate k (false, largeNalu), IsNalu u.2 := by
    intro u hu
    rw [List.eq_of_mem_replicate hu]
    exact largeNalu_isNalu
  have hclip : RTPH264PacketBuilder.clip largeNalu = some largeNalu := by
    apply RTPH264PacketBuilder.clip_eq largeNalu_isNalu.ne_nil
    rw [largeNalu_length]
    decide
  have hsplit := b.send_data_annexB 0 [] hunits
  rw [List.map_replicate, List.filterMap_replicate_of_some hclip] at hsplit
  exact hsplit

theorem slices_packets (k : Nat) : (slices k).packets = 2 * k := by
  rw [SendCall.packets, slices_nalus, List.map_replicate, largeNalu_length]
  induction k with
  | zero => rfl
  | succ k ih =>
    rw [List.replicate_succ, packetCount, if_pos (by decide), ih]
    simp
    omega

theorem slices_chunks (k : Nat) : chunks [] 0 (.replicate k largeNalu) = .replicate k (.fua largeNalu) := by
  rw [chunks_long, List.map_replicate]
  intro n hn
  rw [List.eq_of_mem_replicate hn, largeNalu_length]
  decide

theorem slices_bytes (k : Nat) :
    packetBytes ((List.replicate k (Chunk.fua largeNalu)).flatMap Chunk.payloads) = 1432 * k := by
  have hbody : largeNalu.tail.length = 1372 := by rw [List.length_tail, largeNalu_length]
  have hone : packetBytes (Chunk.fua largeNalu).payloads = 1432 := by
    rw [Chunk.payloads, RTPH264PacketBuilder.packetBytes_fragments, hbody]
    exact List.ne_nil_of_length_pos (by rw [hbody]; decide)
  rw [packetBytes_flatMap, List.map_replicate, List.sum_replicate_nat, hone, Nat.mul_comm]

/-- Up to 183 slices fit the buffer and are sent. -/
theorem slices_sent {k : Nat} (hk : k ≤ 183) : (send oneDestination (slices k)).2.2 = true := by
  have hs : Sending oneDestination { m_initialize := true, m_ssrc := 1, m_sequence := 7 } := ⟨rfl, rfl, _, rfl⟩
  obtain ⟨t, ht⟩ := hs.transmitter
  have hreceive : (RTPH264PacketBuilder.receive_rtp_packets
      { m_initialize := true, m_ssrc := 1, m_sequence := 7, m_nalu_vec := .replicate k largeNalu } []).2.2 = true := by
    apply RTPH264PacketBuilder.receive_rtp_packets_true
    · exact RTPH264PacketBuilder.inside_start _
    · rw [slices_chunks, slices_bytes]
      simp only [RTP_PACKETS_BUFFER_SIZE]
      omega
  simp only [send, send_h264_data, hs.init, hs.builder, ht, slices_nalus]
  generalize hr : RTPH264PacketBuilder.receive_rtp_packets _ [] = r at hreceive ⊢
  obtain ⟨b', packets, ok⟩ := r
  cases ok with
  | false => cases hreceive
  | true =>
    -- no packet is larger than what the destination takes
    have hsizes := (RTPH264PacketBuilder.packets_le_iff hr).2 (by
      intro ns hns
      rw [slices_chunks] at hns
      cases List.eq_of_mem_replicate hns)
    apply send_loop_true
    intro i d hd
    obtain ⟨j, hj, rfl⟩ := List.mem_mapIdx.1 hd
    apply send_data_whole
    rw [rewrite_length]
    exact hsizes _ (List.getElem_mem hj)

/-- 128 slices make 256 packets, and each of these says 0. -/
theorem not_counted : ¬ ∀ (s : RTPSessionVideo) (c : SendCall), (send s c).2.2 = true →
    ∀ d ∈ (send s c).2.1, reservedOf d = (send s c).2.1.length := by
  intro hcount
  have hok := slices_sent (show 128 ≤ 183 by decide)
  have hfew := (count_iff oneDestination (slices 128) hok).1 (hcount _ _ hok)
  rw [slices_packets] at hfew
  exact absurd hfew (by decide)

end RTPSessionVideo

end RtcClient
