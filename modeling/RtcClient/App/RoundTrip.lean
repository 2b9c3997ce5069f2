import RtcClient.App.RoomUser
import RtcClient.Rtp.Delivery
import RtcClient.Rtp.Sequence
/-!
# From a frame to the callback

The builder, the session, the parser, the assembler and the user together, over a
channel that loses and reorders nothing: each frame comes out once, with its NAL
units (`round_trip`).
-/

namespace RtcClient

open Lib RTPH264FrameAssembler

/-! ## Collecting frames -/

namespace RoomUser

/-- A user that receives video, with its assembler. -/
structure Receiving (u : RoomUser) (a : RTPH264FrameAssembler) : Prop where
  assembler : u.m_h264_frame_assembler = some a
  ready : Ready a
  size : u.m_h264_rtp_buffer.length = RTP_H264_RECV_BUFFER_SIZE
  callback : u.m_h264_callback = true

/-- The bytes collected for the next callback. -/
def collectedBytes (u : RoomUser) : Bytes := u.m_h264_rtp_buffer.take u.m_h264_rtp_buffer_used_len

/-- The callbacks made while the packets are processed. -/
def deliveries (u : RoomUser) (qs : List RTPPacket) : List Delivery := (trace process_video u qs).filterMap (·.2)

section
variable {u : RoomUser} {a a' : RTPH264FrameAssembler} {q : RTPPacket}

theorem process_incomplete (hu : Receiving u a) (h : a.push_packet q = (a', false)) :
    u.process_video q = ({ u with m_h264_frame_assembler := some a' }, none) := by
  simp only [process_video, hu.assembler, h]
  rfl

/-- A complete frame is added to what was collected; a marker delivers it. -/
theorem process_complete (hu : Receiving u a) (h : a.push_packet q = (a', true)) {bs : Bytes} (hf : a'.frame = bs)
    (hl : a'.m_buffer_used_len = bs.length)
    (hfit : u.m_h264_rtp_buffer_used_len + bs.length < RTP_H264_RECV_BUFFER_SIZE) :
    ∃ u', (u.process_video q).1 = u' ∧ u'.m_h264_frame_assembler = some a' ∧
      u'.m_h264_rtp_buffer.length = RTP_H264_RECV_BUFFER_SIZE ∧ u'.m_h264_callback = true ∧
      (if q.m_marker then u'.m_h264_rtp_buffer_used_len = 0 ∧
          (u.process_video q).2 = some ⟨u.m_user_uuid, u.collectedBytes ++ bs, q.m_ssrc, q.m_timestamp⟩
        else u'.m_h264_rtp_buffer_used_len = u.m_h264_rtp_buffer_used_len + bs.length ∧
          u'.collectedBytes = u.collectedBytes ++ bs ∧ (u.process_video q).2 = none) := by
  have htake : (splice u.m_h264_rtp_buffer u.m_h264_rtp_buffer_used_len bs).take
      (u.m_h264_rtp_buffer_used_len + bs.length) = u.collectedBytes ++ bs :=
    splice_take _ _ _ (by rw [hu.size]; omega)
  have hroom : ¬ u.m_h264_rtp_buffer_used_len + bs.length ≥ RTP_H264_RECV_BUFFER_SIZE := by omega
  refine ⟨_, rfl, ?_⟩
  cases hm : q.m_marker with
  | true =>
    simp only [process_video, hu.assembler, h, hf, hl, hroom, if_true, if_false, hm, hu.callback, splice_length,
      hu.size, htake, and_self]
  | false =>
    simp only [process_video, hu.assembler, h, hf, hl, hroom, if_true, if_false, hm, hu.callback, splice_length,
      hu.size, collectedBytes, Bool.false_eq_true, true_and, and_true]
    exact htake

theorem process_unfinished {first : List RTPPacket} :
    ∀ {u : RoomUser} {a : RTPH264FrameAssembler}, Receiving u a → (∀ r ∈ trace push_packet a first, r.2 = false) →
      final process_video u first = { u with m_h264_frame_assembler := some (final push_packet a first) } ∧
        deliveries u first = [] := by
  induction first with
  | nil =>
    intro u a hu _
    refine ⟨?_, rfl⟩
    rw [final_nil, final_nil, ← hu.assembler]
  | cons q first ih =>
    intro u a hu h
    have hq : (a.push_packet q).2 = false := h (q, (a.push_packet q).2) (by simp)
    have hpush : a.push_packet q = ((a.push_packet q).1, false) := by rw [← hq]
    have hp := process_incomplete hu hpush
    have hu' : Receiving { u with m_h264_frame_assembler := some (a.push_packet q).1 } (a.push_packet q).1 :=
      ⟨rfl, push_ready hu.ready q, hu.size, hu.callback⟩
    obtain ⟨hf, hd⟩ := ih hu' (fun r hr => h r (by simp [hr]))
    refine ⟨by rw [final_cons, hp]; exact hf, ?_⟩
    rw [deliveries, trace_cons, hp]
    exact hd

/-- The last packet, and no other, has the marker. -/
def MarkedLast (qs : List RTPPacket) : Prop :=
  ∃ first last, qs = first ++ [last] ∧ (∀ q ∈ first, q.m_marker = false) ∧ last.m_marker = true

/-- What the packets of one chunk do: only the last one matters. -/
theorem delivered_processed (hu : Receiving u a) {qs : List RTPPacket} {bs : Bytes} (hd : Delivered a qs bs a')
    (hfit : u.m_h264_rtp_buffer_used_len + bs.length < RTP_H264_RECV_BUFFER_SIZE) :
    ∃ first last u', qs = first ++ [last] ∧ final process_video u qs = u' ∧ Receiving u' a' ∧
      (if last.m_marker then u'.m_h264_rtp_buffer_used_len = 0 ∧
          deliveries u qs = [⟨u.m_user_uuid, u.collectedBytes ++ bs, last.m_ssrc, last.m_timestamp⟩]
        else u'.m_h264_rtp_buffer_used_len = u.m_h264_rtp_buffer_used_len + bs.length ∧
          u'.collectedBytes = u.collectedBytes ++ bs ∧ deliveries u qs = []) := by
  obtain ⟨first, last, rfl, hfirst, hlast⟩ := hd.split
  obtain ⟨hfinal, hnone⟩ := process_unfinished hu hfirst
  have hr : Ready (final push_packet a first) :=
    final_rule push_packet Ready (fun _ p h => push_ready h p) hu.ready first
  have hu1 : Receiving { u with m_h264_frame_assembler := some (final push_packet a first) }
      (final push_packet a first) := ⟨rfl, hr, hu.size, hu.callback⟩
  obtain ⟨u', hp, hasm, hsize, hcb, hout⟩ := process_complete hu1 hlast hd.shown hd.used hfit
  have hdel : deliveries u (first ++ [last]) =
      (process_video { u with m_h264_frame_assembler := some (final push_packet a first) } last).2.toList := by
    rw [deliveries, trace_append, List.filterMap_append, ← deliveries, hnone, hfinal]
    cases hc : (process_video { u with m_h264_frame_assembler := some (final push_packet a first) } last).2 <;>
      simp [hc]
  refine ⟨first, last, u', rfl, ?_, ⟨hasm, hd.ready, hsize, hcb⟩, ?_⟩
  · rw [final_append, hfinal]; exact hp
  · rw [hdel]
    split at hout
    · rename_i hm
      rw [if_pos hm]
      exact ⟨hout.1, by rw [hout.2]; rfl⟩
    · rename_i hm
      rw [if_neg hm]
      exact ⟨hout.1, hout.2.1, by rw [hout.2.2]; rfl⟩

/-- The packets of a frame deliver its NAL units, once. -/
theorem chunks_processed (cs : List Chunk) :
    ∀ {u : RoomUser} {a : RTPH264FrameAssembler} {qs : List RTPPacket}, cs ≠ [] → Receiving u a →
      (∀ c ∈ cs, ChunkFits c) → List.Forall₂ Carries qs (cs.flatMap Chunk.payloads) → MarkedLast qs →
      u.m_h264_rtp_buffer_used_len + 2 * packetBytes (cs.flatMap Chunk.payloads) < RTP_H264_RECV_BUFFER_SIZE →
      ∃ d us a', deliveries u qs = [d] ∧ d.data = u.collectedBytes ++ annexB us ∧
        us.map (·.2) = cs.flatMap Chunk.nalus ∧ Receiving (final process_video u qs) a' ∧
        (final process_video u qs).m_h264_rtp_buffer_used_len = 0 := by
  induction cs with
  | nil => intro u a qs h; exact absurd rfl h
  | cons c cs ih =>
    intro u a qs _ hu hfits hqs hmark hroom
    rw [List.flatMap_cons] at hqs hroom
    rw [packetBytes_append] at hroom
    have h1 := List.forall₂_take_append qs c.payloads (cs.flatMap Chunk.payloads) hqs
    have h2 := List.forall₂_drop_append qs c.payloads (cs.flatMap Chunk.payloads) hqs
    obtain ⟨a1, us, hus, hlen, hd⟩ := chunk_delivered hu.ready (hfits c (by simp)) h1
    obtain ⟨first, last, u1, hsplit, hfinal, hu1, hout⟩ := delivered_processed hu hd (by omega)
    obtain ⟨mfirst, mlast, hmsplit, hmf, hml⟩ := hmark
    cases cs with
    | nil =>
      -- The last chunk: its last packet has the marker.
      have hnil := h2.length_eq
      simp only [List.flatMap_nil, List.length_nil, List.length_drop] at hnil
      have htake : qs.take c.payloads.length = qs := List.take_of_length_le (by omega)
      rw [htake] at hsplit hfinal hout
      obtain ⟨-, hl⟩ := List.append_inj' (hsplit.symm.trans hmsplit) rfl
      rw [(List.cons.inj hl).1, if_pos hml] at hout
      exact ⟨_, us, a1, hout.2, rfl, by simp [hus], by rw [hfinal]; exact hu1, by rw [hfinal]; exact hout.1⟩
    | cons c' cs =>
      have hpos : 0 < (qs.drop c.payloads.length).length := by
        rw [h2.length_eq, List.flatMap_cons, List.length_append]
        have := List.length_pos_iff.2 c'.payloads_ne_nil
        omega
      obtain ⟨x, y, hxy⟩ : ∃ x y, qs.drop c.payloads.length = x ++ [y] := by
        rcases List.eq_nil_or_concat (qs.drop c.payloads.length) with h | ⟨x, y, h⟩
        · rw [h] at hpos; simp at hpos
        · exact ⟨x, y, by rw [h, List.concat_eq_append]⟩
      have hqs' : qs.take c.payloads.length ++ x ++ [y] = mfirst ++ [mlast] := by
        rw [List.append_assoc, ← hxy, List.take_append_drop, hmsplit]
      obtain ⟨hm1, hm2⟩ := List.append_inj' hqs' rfl
      obtain rfl : y = mlast := (List.cons.inj hm2).1
      have hun : last.m_marker = false := hmf last (by rw [← hm1, hsplit]; simp)
      rw [hun, if_neg (by simp)] at hout
      obtain ⟨d, vs, a2, hdel, hdata, hvs, hu2, hzero⟩ := ih (by simp) hu1 (fun k hk => hfits k (by simp [hk])) h2
        ⟨x, y, hxy, fun q hq => hmf q (by rw [← hm1]; simp [hq]), hml⟩ (by omega)
      have hqs2 : qs = qs.take c.payloads.length ++ qs.drop c.payloads.length := (List.take_append_drop _ _).symm
      have hfin : final process_video u qs = final process_video u1 (qs.drop c.payloads.length) := by
        rw [hqs2, final_append, hfinal]; simp
      refine ⟨d, us ++ vs, a2, ?_, ?_, ?_, by rw [hfin]; exact hu2, by rw [hfin]; exact hzero⟩
      · rw [hqs2, deliveries, trace_append, List.filterMap_append, ← deliveries, ← deliveries, hout.2.2, hfinal,
          List.nil_append]
        simpa using hdel
      · rw [hdata, hout.2.1, annexB_append, List.append_assoc]
      · simp only [List.map_append, hus, hvs, List.flatMap_cons]

end

end RoomUser

/-! ## The way of a frame -/

/-- A frame: NAL units behind start codes of three or four bytes. -/
structure Frame where
  units : List (Bool × Bytes)
  nonempty : units ≠ []
  nalu : ∀ u ∈ units, IsNalu u.2

def Frame.bytes (f : Frame) : Bytes := annexB f.units

def Frame.nalus (f : Frame) : List Bytes := f.units.map (·.2)

/-- A frame to send: where its bytes are, what is behind them, and the time. -/
structure FrameSend where
  frame : Frame
  addr : Nat
  beyond : Bytes
  now_ms : UInt32

/-- `send_data` and `receive_rtp_packets`. -/
def pack (b : RTPH264PacketBuilder) (f : FrameSend) : RTPH264PacketBuilder × List Bytes × Bool :=
  match b.send_data ⟨f.frame.bytes, f.beyond⟩ f.addr f.frame.bytes.length with
  | (b, true) => b.receive_rtp_packets []
  | (b, false) => (b, [], false)

/-- The packets of each frame as they go over the channel. -/
def onWire (b : RTPH264PacketBuilder) (fs : List FrameSend) : List (List Bytes) :=
  (trace pack b fs).map (fun r => RTPSessionVideo.rewrite_packets r.1.now_ms r.2.1)

/-- NAL units whose lengths fit an `int` are packed as they are. -/
theorem pack_nalus (b : RTPH264PacketBuilder) {f : FrameSend} (h : ∀ n ∈ f.frame.nalus, n.length < 2 ^ 31) :
    pack b f = RTPH264PacketBuilder.receive_rtp_packets { b with m_nalu_vec := f.frame.nalus } [] := by
  have hnalu : ∀ n ∈ f.frame.nalus, n ≠ [] ∧ n.length < 2 ^ 31 := by
    intro n hn
    obtain ⟨v, hv, rfl⟩ := List.mem_map.1 hn
    exact ⟨(f.frame.nalu v hv).ne_nil, h _ hn⟩
  have hsend := RTPH264PacketBuilder.send_data_annexB b f.addr f.beyond f.frame.nalu
  have hclip : (f.frame.units.map (·.2)).filterMap RTPH264PacketBuilder.clip = f.frame.nalus :=
    RTPH264PacketBuilder.filterMap_clip hnalu
  rw [hclip] at hsend
  simp only [pack, Frame.bytes, hsend]

/-- The packets that `parse` accepts; `beyond` is the memory behind a datagram. -/
def parseAll (beyond : Bytes) (ds : List Bytes) : List RTPPacket :=
  ds.filterMap (fun d => let r := RTPPacket.reset.parse ⟨d, beyond⟩ d.length; if r.2 then some r.1 else none)

/-- The user processes the packets of one frame. -/
def process (beyond : Bytes) (u : RoomUser) (ds : List Bytes) : RoomUser × List Delivery :=
  (final RoomUser.process_video u (parseAll beyond ds), u.deliveries (parseAll beyond ds))

/-- The NAL units between the start codes of the delivered bytes. -/
def splitNalus (bs beyond : Bytes) (addr : Nat) : List Bytes :=
  (RTPH264PacketBuilder.send_data {} ⟨bs, beyond⟩ addr bs.length).1.m_nalu_vec

/-- Each frame makes one callback, with the frame's NAL units. -/
def RoundTrip (b : RTPH264PacketBuilder) (u : RoomUser) (beyond : Bytes) (fs : List FrameSend) : Prop :=
  List.Forall₂ (fun f ds => ∃ d, ds = [d] ∧ ∀ tail addr, splitNalus d.data tail addr = f.frame.nalus) fs
    ((trace (process beyond) u (onWire b fs)).map (·.2))

theorem splitNalus_annexB {us : List (Bool × Bytes)} (h : ∀ u ∈ us, IsNalu u.2 ∧ u.2.length < 2 ^ 31)
    (beyond : Bytes) (addr : Nat) : splitNalus (annexB us) beyond addr = us.map (·.2) := by
  rw [splitNalus, RTPH264PacketBuilder.send_data_annexB _ _ _ (fun u hu => (h u hu).1)]
  apply RTPH264PacketBuilder.filterMap_clip
  intro n hn
  obtain ⟨u, hu, rfl⟩ := List.mem_map.1 hn
  exact ⟨(h u hu).1.ne_nil, (h u hu).2⟩

/-- The parsed packets of a frame. -/
theorem parseAll_sent (beyond : Bytes) (now_ms ssrc timestamp sequence : UInt32) {ps : List Bytes}
    (hl : ∀ p ∈ ps, p.length < 2 ^ 64) :
    parseAll beyond (RTPSessionVideo.rewrite_packets now_ms (stamp ssrc timestamp sequence ps)) =
      ps.mapIdx (RTPSessionVideo.sentPacket ps now_ms ssrc sequence beyond) := by
  have h := RTPSessionVideo.parse_sent now_ms ssrc timestamp sequence hl .reset beyond
  have h' := congrArg (List.filterMap (fun r : RTPPacket × Bool => if r.2 then some r.1 else none)) h
  rw [List.filterMap_map] at h'
  refine h'.trans ?_
  have hpair : ps.mapIdx (fun i p => (RTPSessionVideo.sentPacket ps now_ms ssrc sequence beyond i p, true)) =
      (ps.mapIdx (RTPSessionVideo.sentPacket ps now_ms ssrc sequence beyond)).map (fun q => (q, true)) :=
    List.ext_getElem (by simp) (by simp)
  rw [hpair, List.filterMap_map]
  exact List.filterMap_some

theorem sent_carries (ps : List Bytes) (now_ms ssrc sequence : UInt32) (beyond : Bytes) :
    List.Forall₂ Carries (ps.mapIdx (RTPSessionVideo.sentPacket ps now_ms ssrc sequence beyond)) ps := by
  refine List.forall₂_of_length_eq_of_get (by simp) ?_
  intro i h1 h2
  simp only [List.get_eq_getElem, List.getElem_mapIdx]
  exact ⟨rfl, rfl⟩

theorem sent_marked {ps : List Bytes} (hne : ps ≠ []) (now_ms ssrc sequence : UInt32) (beyond : Bytes) :
    RoomUser.MarkedLast (ps.mapIdx (RTPSessionVideo.sentPacket ps now_ms ssrc sequence beyond)) := by
  obtain ⟨l, e, hps⟩ : ∃ l e, ps = l ++ [e] := by
    rcases List.eq_nil_or_concat ps with h | ⟨l, e, h⟩
    · exact absurd h hne
    · exact ⟨l, e, by rw [h, List.concat_eq_append]⟩
  have hmark : ∀ i p, (RTPSessionVideo.sentPacket ps now_ms ssrc sequence beyond i p).m_marker =
      decide (i + 1 = ps.length) := by
    intro i p
    by_cases h : i + 1 = ps.length <;>
      simp [RTPSessionVideo.sentPacket, RTPPacket.parsed, RTPSessionVideo.sentHeader, h]
  have hlen : ps.length = l.length + 1 := by rw [hps]; simp
  generalize RTPSessionVideo.sentPacket ps now_ms ssrc sequence beyond = f at hmark
  refine ⟨l.mapIdx f, f l.length e, by rw [hps, List.mapIdx_concat], ?_, by rw [hmark, hlen]; simp⟩
  intro q hq
  obtain ⟨i, hi, rfl⟩ := List.mem_mapIdx.1 hq
  rw [hmark, hlen]
  simp only [decide_eq_false_iff_not]
  omega

/-- The chunks of a frame fit the receiver. -/
theorem chunks_fit {b b' : RTPH264PacketBuilder} {packets : List Bytes}
    (h : b.receive_rtp_packets [] = (b', packets, true)) (hn : ∀ n ∈ b.m_nalu_vec, IsNalu n)
    (hsize : ∀ p ∈ packets, p.length ≤ RTP_RECV_BUFFER_SIZE) : ∀ c ∈ chunks [] 0 b.m_nalu_vec, ChunkFits c := by
  intro c hc
  have hsized := chunks_sized b.m_nalu_vec [] 0 (by simp) c hc
  have hbytes := RTPH264PacketBuilder.receive_rtp_packets_bytes h
  have hpackets := (RTPH264PacketBuilder.receive_rtp_packets_built h).packets
  have hnalus : ∀ n ∈ c.nalus, IsNalu n := by
    intro n hnc
    apply hn
    have := List.mem_flatMap.2 ⟨c, hc, hnc⟩
    rwa [chunks_nalus] at this
  cases c with
  | packet ns =>
    refine ⟨hsized.1, fun n hns => ⟨hnalus n hns, hsized.2 n hns⟩, ?_⟩
    obtain ⟨p, hp⟩ : ∃ p, (Chunk.packet ns).payloads = [p] := by
      match ns with
      | [] => exact ⟨_, rfl⟩
      | [n] => exact ⟨_, rfl⟩
      | n :: m :: ns => exact ⟨_, rfl⟩
    have hmem : p ∈ (chunks [] 0 b.m_nalu_vec).flatMap Chunk.payloads := List.mem_flatMap.2 ⟨_, hc, by simp [hp]⟩
    obtain ⟨q, hq, hl⟩ := stamp_mem hmem b.m_ssrc b.m_timestamp b.m_sequence
    have := hsize q (by rw [hpackets]; exact hq)
    rw [hp, packetBytes_cons, packetBytes_nil]
    omega
  | fua n => exact ⟨hsized, (packetBytes_chunk hc).trans hbytes⟩

/-- One frame goes through. -/
theorem frame_round_trip {b b' : RTPH264PacketBuilder} {f : FrameSend} {packets : List Bytes}
    (hshort : ∀ n ∈ f.frame.nalus, n.length < 2 ^ 31) (h : pack b f = (b', packets, true))
    (hsize : ∀ p ∈ packets, p.length ≤ RTP_RECV_BUFFER_SIZE) (beyond : Bytes) {u : RoomUser}
    {a : RTPH264FrameAssembler} (hu : u.Receiving a) (hempty : u.m_h264_rtp_buffer_used_len = 0) :
    ∃ d u' a', process beyond u (RTPSessionVideo.rewrite_packets f.now_ms packets) = (u', [d]) ∧
      (∀ tail addr, splitNalus d.data tail addr = f.frame.nalus) ∧ u'.Receiving a' ∧
      u'.m_h264_rtp_buffer_used_len = 0 := by
  have hnalu : ∀ n ∈ f.frame.nalus, IsNalu n ∧ n.length < 2 ^ 31 := by
    intro n hn
    obtain ⟨v, hv, rfl⟩ := List.mem_map.1 hn
    exact ⟨f.frame.nalu v hv, hshort _ hn⟩
  rw [pack_nalus b hshort] at h
  have hbuilt := RTPH264PacketBuilder.receive_rtp_packets_built h
  have hbytes := RTPH264PacketBuilder.receive_rtp_packets_bytes h
  have hfit := chunks_fit h (fun n hn => (hnalu n hn).1) hsize
  have hnalus := chunks_nalus f.frame.nalus [] 0
  have hcs : chunks [] 0 f.frame.nalus ≠ [] := by
    intro he
    rw [he] at hnalus
    exact f.frame.nonempty (by simpa [Frame.nalus] using hnalus)
  have hpackets : packets = stamp b.m_ssrc b.m_timestamp b.m_sequence
      ((chunks [] 0 f.frame.nalus).flatMap Chunk.payloads) := hbuilt.packets
  simp only [Frame.nalus] at hbytes
  have hlen : ∀ p ∈ (chunks [] 0 f.frame.nalus).flatMap Chunk.payloads, p.length < 2 ^ 64 := by
    intro p hp
    have := le_packetBytes hp
    simp only [RTP_PACKETS_BUFFER_SIZE, Frame.nalus] at hbytes this
    omega
  have hne : (chunks [] 0 f.frame.nalus).flatMap Chunk.payloads ≠ [] := by
    obtain ⟨c, cs, hc⟩ := List.exists_cons_of_ne_nil hcs
    rw [hc, List.flatMap_cons]
    intro he
    exact c.payloads_ne_nil (List.append_eq_nil_iff.1 he).1
  rw [process, hpackets, parseAll_sent beyond _ _ _ _ hlen]
  obtain ⟨d, us, a', hdel, hdata, hus, hu', hzero⟩ := RoomUser.chunks_processed _ hcs hu hfit
    (sent_carries _ f.now_ms b.m_ssrc b.m_sequence beyond) (sent_marked hne _ _ _ _)
    (by simp only [RTP_PACKETS_BUFFER_SIZE, RTP_H264_RECV_BUFFER_SIZE, Frame.nalus] at hbytes ⊢; omega)
  refine ⟨d, _, a', by rw [hdel], ?_, hu', hzero⟩
  intro tail addr
  rw [hnalus, List.nil_append] at hus
  have hnil : u.collectedBytes = [] := by rw [RoomUser.collectedBytes, hempty, List.take_zero]
  rw [hdata, hnil, List.nil_append, splitNalus_annexB, hus]
  intro v hv
  exact hnalu _ (by rw [← hus]; exact List.mem_map_of_mem hv)

theorem initialize_video_receiving {u u' : RoomUser} {pinholeIP : Bytes} {pinholePort : Nat} {env : ReceiverEnv}
    (hcb : u.m_h264_callback = true) (hnew : u.m_video_initialize = false)
    (hu : u.initialize_video pinholeIP pinholePort env = (u', true)) :
    u'.Receiving (started env.assemblerMemory) ∧ u'.m_h264_rtp_buffer_used_len = 0 := by
  simp only [RoomUser.initialize_video, hnew, Bool.false_eq_true, if_false] at hu
  split at hu
  · simp at hu
  · split at hu
    · simp at hu
    · obtain ⟨rfl, -⟩ : _ ∧ True := by simpa using hu
      exact ⟨⟨rfl, started_ready _, env.frameMemory.size, hcb⟩, rfl⟩

/-- Over a channel that loses and reorders nothing, each frame whose packets could be
built and fit the receiver makes one callback, with its NAL units. -/
theorem round_trip (b : RTPH264PacketBuilder) (fs : List FrameSend)
    (hshort : ∀ f ∈ fs, ∀ n ∈ f.frame.nalus, n.length < 2 ^ 31)
    (hok : ∀ r ∈ trace pack b fs, r.2.2 = true)
    (hsize : ∀ r ∈ trace pack b fs, ∀ p ∈ r.2.1, p.length ≤ RTP_RECV_BUFFER_SIZE)
    {u u' : RoomUser} {pinholeIP : Bytes} {pinholePort : Nat} {env : ReceiverEnv} (hcb : u.m_h264_callback = true)
    (hnew : u.m_video_initialize = false) (hu : u.initialize_video pinholeIP pinholePort env = (u', true))
    (beyond : Bytes) : RoundTrip b u' beyond fs := by
  obtain ⟨hu', hempty⟩ := initialize_video_receiving hcb hnew hu
  generalize started env.assemblerMemory = a at hu'
  clear hu hnew hcb
  unfold RoundTrip onWire
  induction fs generalizing b u' a with
  | nil => exact .nil
  | cons f fs ih =>
    have hf : (pack b f).2.2 = true := hok (f, (pack b f).2) (by simp)
    have hpack : pack b f = ((pack b f).1, (pack b f).2.1, true) := by rw [← hf]
    obtain ⟨d, u1, a1, hp, hsplit, hu1, hempty1⟩ := frame_round_trip (hshort f (by simp)) hpack
      (hsize (f, (pack b f).2) (by simp)) beyond hu' hempty
    rw [trace_cons, List.map_cons, trace_cons, List.map_cons, hp]
    refine .cons ⟨d, rfl, hsplit⟩ (ih (pack b f).1 (fun g hg => hshort g (by simp [hg]))
      (fun r hr => hok r (by simp [hr])) (fun r hr => hsize r (by simp [hr])) hempty1 a1 hu1)

/-- Sockets that can be bound, and cleared buffers. -/
def sampleEnv : ReceiverEnv := ⟨9000, true, .zeros _, .zeros _, .zeros _⟩

/-- A user that has started to receive. -/
def sampleUser : RoomUser := (RoomUser.initialize_video { m_h264_callback := true } [] 9002 sampleEnv).1

/-- A parameter set, a slice and a second slice behind a long start code. -/
def sampleFrame : Frame where
  units := [(true, [0x67, 1]), (false, [0x65, 2, 3]), (true, [0x41, 4])]
  nonempty := by simp
  nalu := by
    simp only [List.forall_mem_cons]
    exact ⟨isNalu_of_nonzero (by decide) (by decide) (by simp) (by decide),
      isNalu_of_nonzero (by decide) (by decide) (by simp) (by decide),
      isNalu_of_nonzero (by decide) (by decide) (by simp) (by decide), by simp⟩

theorem round_trip_sample :
    RoundTrip (RTPH264PacketBuilder.init {} 65535 0 true).1 sampleUser []
      [⟨sampleFrame, 1, [], 5⟩, ⟨sampleFrame, 2, [7], 6⟩] :=
  round_trip _ _ (by decide) (by decide +kernel) (by decide +kernel) (u := { m_h264_callback := true }) rfl rfl
    (show RoomUser.initialize_video _ [] 9002 sampleEnv = (sampleUser, true) from rfl) []

/-- A frame of one NAL unit, with `k` bytes behind its header. -/
def longFrame (k : Nat) : Frame where
  units := [(false, 0x65 :: List.replicate k 1)]
  nonempty := by simp
  nalu := by
    simp only [List.forall_mem_cons]
    refine ⟨isNalu_of_nonzero (by decide) (by decide) ?_ (fun h => absurd h (by decide)), by simp⟩
    intro x hx
    rcases List.mem_cons.1 hx with rfl | hx
    · decide
    · rw [List.eq_of_mem_replicate hx]; decide

/-- If the length turns negative, the NAL unit is left out. -/
theorem pack_longFrame (b : RTPH264PacketBuilder) {k : Nat} (hk : int32 (k + 1 : Nat) ≤ 0) :
    pack b ⟨longFrame k, 0, [], 0⟩ = ({ b with m_nalu_vec := [], m_current_pos := 0 }, [], true) := by
  have hclip : RTPH264PacketBuilder.clip (0x65 :: List.replicate k 1) = none := by
    rw [RTPH264PacketBuilder.clip, List.length_cons, List.length_replicate]
    exact if_neg (by omega)
  have hsend := RTPH264PacketBuilder.send_data_annexB b 0 [] (longFrame k).nalu
  have hmap : ((longFrame k).units.map (·.2)).filterMap RTPH264PacketBuilder.clip = [] := by
    rw [longFrame, List.map_cons, List.map_nil, List.filterMap_cons_none hclip, List.filterMap_nil]
  rw [hmap] at hsend
  simp only [pack, Frame.bytes, hsend]
  rfl

/-- A NAL unit of more than 2^31 bytes is lost although every call returns true. -/
theorem not_round_trip_long :
    (∀ r ∈ trace pack (RTPH264PacketBuilder.init {} 0 0 true).1 [⟨longFrame (2 ^ 31), 0, [], 0⟩], r.2.2 = true) ∧
      (∀ r ∈ trace pack (RTPH264PacketBuilder.init {} 0 0 true).1 [⟨longFrame (2 ^ 31), 0, [], 0⟩],
        ∀ p ∈ r.2.1, p.length ≤ RTP_RECV_BUFFER_SIZE) ∧
      ¬ RoundTrip (RTPH264PacketBuilder.init {} 0 0 true).1 sampleUser [] [⟨longFrame (2 ^ 31), 0, [], 0⟩] := by
  have hp := pack_longFrame (RTPH264PacketBuilder.init {} 0 0 true).1 (k := 2 ^ 31) (by decide)
  refine ⟨?_, ?_, ?_⟩
  · simp only [trace_cons, trace_nil, hp, List.mem_singleton, forall_eq]
  · simp only [trace_cons, trace_nil, hp, List.mem_singleton, forall_eq, List.not_mem_nil, false_implies, implies_true]
  · intro h
    simp only [RoundTrip, onWire, trace_cons, trace_nil, hp, List.map_cons, List.map_nil] at h
    obtain ⟨⟨d, hd, -⟩, -⟩ := List.forall₂_cons.1 h
    exact absurd hd (by simp [process, RTPSessionVideo.rewrite_packets, parseAll, RoomUser.deliveries])

end RtcClient
