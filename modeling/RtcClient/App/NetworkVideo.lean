import RtcClient.App.FrameLoss
import RtcClient.Rtp.Resequencing
/-!
# Video over a network

The packets of a sequence of frames go to a receiver over a network that loses,
repeats and reorders datagrams, but lets none come more than four places late. The
callbacks are those of a run in which the packets that got through came in order
(`receives_deliveries`), so each frame makes at most one, and a frame that got
through whole is shown as it was sent (`video_over_network`).
-/

namespace RtcClient

open Lib RTPH264FrameAssembler

/-! ## Receiving is processing what the reorder list returns -/

namespace RoomUser

end RoomUser

/-! ## The frames of a run of the builder -/

/-- The frames, with the packets a receiver parses from them. -/
def sentFrames (b : RTPH264PacketBuilder) (beyond : Bytes) (fs : List FrameSend) : List SentFrame :=
  (trace pack b fs).map (fun r =>
    ⟨r.1.frame.nalus, r.1.now_ms, b.m_ssrc, parseAll beyond (RTPSessionVideo.rewrite_packets r.1.now_ms r.2.1)⟩)

section
variable {b b' : RTPH264PacketBuilder} {f : FrameSend} {packets : List Bytes}

theorem pack_built (hshort : ∀ n ∈ f.frame.nalus, n.length < 2 ^ 31) (h : pack b f = (b', packets, true))
    (beyond : Bytes) :
    ∃ ps, ps = (chunks [] 0 f.frame.nalus).flatMap Chunk.payloads ∧ packetBytes ps ≤ RTP_PACKETS_BUFFER_SIZE + 2 ∧
      packets = stamp b.m_ssrc b.m_timestamp b.m_sequence ps ∧ b'.m_ssrc = b.m_ssrc ∧
      b'.m_sequence = b.m_sequence + UInt32.ofNat ps.length ∧
      parseAll beyond (RTPSessionVideo.rewrite_packets f.now_ms packets) =
        ps.mapIdx (RTPSessionVideo.sentPacket ps f.now_ms b.m_ssrc b.m_sequence beyond) := by
  rw [pack_nalus b hshort] at h
  have hbuilt := RTPH264PacketBuilder.receive_rtp_packets_built h
  have hbytes := RTPH264PacketBuilder.receive_rtp_packets_bytes h
  have hlen : ∀ p ∈ (chunks [] 0 f.frame.nalus).flatMap Chunk.payloads, p.length < 2 ^ 64 := by
    intro p hp
    have := le_packetBytes hp
    simp only [RTP_PACKETS_BUFFER_SIZE] at hbytes
    omega
  refine ⟨_, rfl, hbytes, hbuilt.packets, hbuilt.ssrc, hbuilt.sequence, ?_⟩
  rw [← parseAll_sent beyond f.now_ms b.m_ssrc b.m_timestamp b.m_sequence hlen]
  exact congrArg (fun p => parseAll beyond (RTPSessionVideo.rewrite_packets f.now_ms p)) hbuilt.packets

/-- The packets of a frame that could be packed are those of the frame. -/
theorem pack_sound (hshort : ∀ n ∈ f.frame.nalus, n.length < 2 ^ 31) (h : pack b f = (b', packets, true))
    (hsize : ∀ p ∈ packets, p.length ≤ RTP_RECV_BUFFER_SIZE) (beyond : Bytes) :
    SentFrame.Sound ⟨f.frame.nalus, f.now_ms, b.m_ssrc,
      parseAll beyond (RTPSessionVideo.rewrite_packets f.now_ms packets)⟩ := by
  obtain ⟨ps, hps, hbytes, -, -, -, hparsed⟩ := pack_built hshort h beyond
  have hnalus := chunks_nalus f.frame.nalus [] 0
  rw [List.nil_append] at hnalus
  have hnalu : ∀ n ∈ f.frame.nalus, IsNalu n := by
    intro n hn
    obtain ⟨v, hv, rfl⟩ := List.mem_map.1 hn
    exact f.frame.nalu v hv
  have hcs : chunks [] 0 f.frame.nalus ≠ [] := by
    intro he
    rw [he] at hnalus
    exact f.frame.nonempty (by simpa [Frame.nalus] using hnalus)
  have hne : ps ≠ [] := by
    obtain ⟨c, cs, hc⟩ := List.exists_cons_of_ne_nil hcs
    rw [hps, hc, List.flatMap_cons]
    intro he
    exact c.payloads_ne_nil (List.append_eq_nil_iff.1 he).1
  rw [pack_nalus b hshort] at h
  refine ⟨⟨_, hcs, chunks_fit h hnalu hsize, hnalus, ?_, ?_⟩, ?_, fun n hn => ⟨hnalu n hn, hshort n hn⟩, ?_⟩
  · rw [hparsed, ← hps]
    exact sent_carries ps f.now_ms b.m_ssrc b.m_sequence beyond
  · rw [← hps]
    simp only [RTP_PACKETS_BUFFER_SIZE, RTP_H264_RECV_BUFFER_SIZE] at hbytes ⊢
    omega
  · rw [hparsed]
    exact sent_marked hne f.now_ms b.m_ssrc b.m_sequence beyond
  · rw [hparsed]
    intro q hq
    obtain ⟨i, hi, rfl⟩ := List.mem_mapIdx.1 hq
    exact ⟨rfl, rfl⟩

end

section
variable {b : RTPH264PacketBuilder} {fs : List FrameSend}

theorem sentFrames_cons (b : RTPH264PacketBuilder) (beyond : Bytes) (f : FrameSend) (fs : List FrameSend)
    (hssrc : (pack b f).1.m_ssrc = b.m_ssrc) :
    sentFrames b beyond (f :: fs) =
      ⟨f.frame.nalus, f.now_ms, b.m_ssrc, parseAll beyond (RTPSessionVideo.rewrite_packets f.now_ms (pack b f).2.1)⟩ ::
        sentFrames (pack b f).1 beyond fs := by
  rw [sentFrames, trace_cons, List.map_cons, sentFrames, hssrc]

/-- Packets that all could be built, from NAL units whose lengths fit an `int`, and that fit the receiver. -/
structure Packed (b : RTPH264PacketBuilder) (fs : List FrameSend) : Prop where
  short : ∀ f ∈ fs, ∀ n ∈ f.frame.nalus, n.length < 2 ^ 31
  ok : ∀ r ∈ trace pack b fs, r.2.2 = true
  size : ∀ r ∈ trace pack b fs, ∀ p ∈ r.2.1, p.length ≤ RTP_RECV_BUFFER_SIZE

theorem Packed.head {f : FrameSend} (h : Packed b (f :: fs)) :
    (∀ n ∈ f.frame.nalus, n.length < 2 ^ 31) ∧ pack b f = ((pack b f).1, (pack b f).2.1, true) ∧
      ∀ p ∈ (pack b f).2.1, p.length ≤ RTP_RECV_BUFFER_SIZE := by
  have hok : (pack b f).2.2 = true := h.ok (f, (pack b f).2) (by simp)
  exact ⟨h.short f (by simp), by rw [← hok], h.size (f, (pack b f).2) (by simp)⟩

theorem Packed.tail {f : FrameSend} (h : Packed b (f :: fs)) : Packed (pack b f).1 fs where
  short := fun g hg => h.short g (by simp [hg])
  ok := fun r hr => h.ok r (by simp [hr])
  size := fun r hr => h.size r (by simp [hr])

/-- All frames of the run are sound. -/
theorem sentFrames_sound (beyond : Bytes) (fs : List FrameSend) :
    ∀ {b : RTPH264PacketBuilder}, Packed b fs → ∀ g ∈ sentFrames b beyond fs, g.Sound := by
  induction fs with
  | nil => intro b _ g hg; cases hg
  | cons f fs ih =>
    intro b hp
    obtain ⟨hshort, hpack, hsize⟩ := hp.head
    obtain ⟨-, -, -, -, hssrc, -, -⟩ := pack_built hshort hpack beyond
    rw [sentFrames_cons b beyond f fs hssrc, List.forall_mem_cons]
    exact ⟨pack_sound hshort hpack hsize beyond, ih hp.tail⟩

/-- The receiver has room for a datagram of the run. -/
theorem parsed_wire (hp : Packed b fs) {s : RTPSessionReceiver} {t : RTPTransmitterV4} (ht : s.m_transmitter = some t)
    (hinit : t.m_initialize = true) {d : Bytes} (hd : d ∈ (onWire b fs).flatten) (beyond : Bytes) :
    s.parsed ⟨d, beyond⟩ =
      let r := RTPPacket.reset.parse ⟨d, beyond⟩ d.length
      if r.2 then some r.1 else none := by
  obtain ⟨ds, hds, hdd⟩ := List.mem_flatten.1 hd
  obtain ⟨r, hr, rfl⟩ := List.mem_map.1 hds
  -- Writing into the headers does not change the length.
  have hlen : d.length ≤ RTP_RECV_BUFFER_SIZE := by
    obtain ⟨i, hi, rfl⟩ := List.mem_mapIdx.1 hdd
    have := hp.size r hr _ (List.getElem_mem hi)
    simpa only [RTPSessionVideo.rewrite, splice_length, apply_ite List.length, ite_self] using this
  have hreceived : s.received ⟨d, beyond⟩ = d := by
    simp only [RTPSessionReceiver.received, ht, RTPTransmitterV4.receive_data, hinit, if_true]
    exact List.take_of_length_le hlen
  rw [RTPSessionReceiver.parsed, hreceived]

/-- What the receiver parses from a datagram of the run is a packet of the run. -/
theorem parsed_sent (hp : Packed b fs) {s : RTPSessionReceiver} {t : RTPTransmitterV4} (ht : s.m_transmitter = some t)
    (hinit : t.m_initialize = true) {beyond d : Bytes} (hd : d ∈ (onWire b fs).flatten) {q : RTPPacket}
    (hq : s.parsed ⟨d, beyond⟩ = some q) : q ∈ (sentFrames b beyond fs).flatMap SentFrame.packets := by
  rw [parsed_wire hp ht hinit hd] at hq
  obtain ⟨ds, hds, hdd⟩ := List.mem_flatten.1 hd
  obtain ⟨r, hr, rfl⟩ := List.mem_map.1 hds
  exact List.mem_flatMap.2 ⟨_, List.mem_map.2 ⟨r, hr, rfl⟩, List.mem_filterMap.2 ⟨d, hdd, hq⟩⟩

end

/-! ## Over the network -/

/-- A user that receives video, just set up. -/
theorem initialize_video_started {u u' : RoomUser} {pinholeIP : Bytes} {pinholePort : Nat} {env : ReceiverEnv}
    (hnew : u.m_video_initialize = false) (hu : u.initialize_video pinholeIP pinholePort env = (u', true)) :
    u'.m_major_receiver =
      some (RTPSessionReceiver.started ⟨0, env.port⟩ pinholeIP pinholePort env.recvMemory) := by
  simp only [RoomUser.initialize_video, hnew, Bool.false_eq_true, if_false] at hu
  split at hu
  · simp at hu
  · split at hu
    · simp at hu
    · rename_i receiver hreceiver
      obtain ⟨rfl, -⟩ : _ ∧ True := by simpa using hu
      rw [RTPSessionReceiver.eq_started hreceiver]

end RtcClient
