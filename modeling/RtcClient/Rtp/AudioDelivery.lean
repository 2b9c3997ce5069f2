import RtcClient.Rtp.Emission
import RtcClient.Rtp.SessionReceiver
/-!
# AAC payloads from the sender to the receiver

The AAC builder puts a payload of almost 128 KiB into one packet. The receiver's buffer
has 2 KiB, and `recvfrom` cuts a datagram to it. So a payload arrives whole if it has at
most 2020 bytes and the datagram is parsed at all (`audio_whole_iff`).
-/

namespace RtcClient

open Lib

namespace RTPSessionReceiver

/-- A receiver `init` has set up, at any time later. -/
structure Listening (s : RTPSessionReceiver) : Prop where
  init : s.m_initialize = true
  transmitter : ∃ t, s.m_transmitter = some t ∧ t.m_initialize = true
  buffer : s.m_recv_buffer.length = RTP_RECV_BUFFER_SIZE

/-- A call with the reorder length `n` parses what arrives, unless it finds the list empty. -/
def Parses (n : Int) (s : RTPSessionReceiver) : Prop := n ≤ 0 ∨ s.m_reorder = false ∨ s.m_reorder_list.length ≠ 0

instance (n : Int) (s : RTPSessionReceiver) : Decidable (Parses n s) := inferInstanceAs (Decidable (_ ∨ _))

/-- The packet a call parses from what arrives. -/
def parsed_by (s : RTPSessionReceiver) (n : Int) (arrived : Buffer) : Option RTPPacket :=
  if n ≤ 0 ∨ s.m_reorder = false then (s.receive_rtp_packet_direct arrived).2
  else if s.m_reorder_list.length = 0 then none
  else s.parsed arrived

theorem parsed_by_none {s : RTPSessionReceiver} {n : Int} (h : ¬ Parses n s) (arrived : Buffer) :
    s.parsed_by n arrived = none := by
  unfold Parses at h
  rw [not_or, not_or] at h
  obtain ⟨hn, hreorder, hlist⟩ := h
  unfold parsed_by
  rw [if_neg (not_or.2 ⟨hn, hreorder⟩), if_pos (not_not.1 hlist)]

theorem init_listening (reorder : Bool) (recvParams : RTPTransParamsV4) (pinholeIP : Bytes) (pinholePort : Nat)
    (memory : Block RTP_RECV_BUFFER_SIZE) :
    Listening (init {} reorder recvParams pinholeIP pinholePort true memory).1 :=
  ⟨rfl, ⟨_, rfl, rfl⟩, memory.size⟩

section
variable {s : RTPSessionReceiver}

/-- What a call writes into the buffer leaves the receiver listening. -/
theorem Listening.write (hs : Listening s) (data : Bytes) :
    Listening { s with m_recv_buffer := splice s.m_recv_buffer 0 data } :=
  ⟨hs.init, hs.transmitter, (splice_length _ _ _).trans hs.buffer⟩

theorem Listening.direct (hs : Listening s) (arrived : Buffer) :
    Listening (s.receive_rtp_packet_direct arrived).1 := by
  have hwrite := hs.write (s.received arrived)
  unfold receive_rtp_packet_direct
  rw [if_pos hs.init]
  dsimp only
  split
  · exact hwrite
  · exact ⟨hwrite.init, hwrite.transmitter, hwrite.buffer⟩

theorem Listening.store (hs : Listening s) (arrived : Buffer) : Listening (s.store arrived) := by
  have hwrite := hs.write (s.received arrived)
  unfold RTPSessionReceiver.store
  dsimp only
  split
  · exact ⟨hwrite.init, hwrite.transmitter, hwrite.buffer⟩
  · split
    · split
      · exact ⟨hwrite.init, hwrite.transmitter, hwrite.buffer⟩
      · exact hwrite
    · exact hwrite

theorem Listening.take_first (hs : Listening s) (n : Int) : Listening (s.take_first n).1 := by
  unfold RTPSessionReceiver.take_first
  split
  · split
    · exact ⟨hs.init, hs.transmitter, hs.buffer⟩
    · exact hs
  · exact hs

theorem Listening.receive (hs : Listening s) (n : Int) (arrived : Buffer) :
    Listening (s.receive_rtp_packet n arrived).1 := by
  unfold receive_rtp_packet
  split
  · exact hs.direct arrived
  · exact (hs.store arrived).take_first n

theorem Listening.received (hs : Listening s) (arrived : Buffer) :
    s.received arrived = arrived.bytes.take RTP_RECV_BUFFER_SIZE := by
  obtain ⟨t, ht, hinit⟩ := hs.transmitter
  unfold RTPSessionReceiver.received
  rw [ht]
  exact if_pos hinit

end

/-- The parsed packet has what the receive buffer holds of the payload. -/
theorem parsed_by_payload {s : RTPSessionReceiver} (hs : Listening s) {n : Int} (hparses : Parses n s)
    {payloadType : Nat} (htype : payloadType < 128) (ssrc timestamp sequence : UInt32) (payload beyond : Bytes) :
    ∃ r, s.parsed_by n ⟨headers payloadType ssrc timestamp sequence ++ payload, beyond⟩ = some r ∧
      r.m_payload.read 0 r.m_payload_len = payload.take 2020 := by
  have hdata : s.received ⟨headers payloadType ssrc timestamp sequence ++ payload, beyond⟩ =
      headers payloadType ssrc timestamp sequence ++ payload.take 2020 := by
    rw [hs.received, List.take_append, List.take_of_length_le (by simp [RTP_RECV_BUFFER_SIZE])]
    rfl
  have hlen : (headers payloadType ssrc timestamp sequence ++ payload.take 2020).length =
      28 + (payload.take 2020).length := by
    rw [List.length_append, headers_length]
  have hcut : (payload.take 2020).length ≤ 2020 := List.length_take_le _ _
  have hpayload : (headers payloadType ssrc timestamp sequence ++ payload.take 2020).drop 28 = payload.take 2020 :=
    List.drop_left' (headers_length _ _ _ _)
  unfold parsed_by
  split
  · -- parsed in the receive buffer, in front of what older datagrams have left there
    have hbuffer : splice s.m_recv_buffer 0 (headers payloadType ssrc timestamp sequence ++ payload.take 2020) =
        headers payloadType ssrc timestamp sequence ++
          (payload.take 2020 ++ s.m_recv_buffer.drop (28 + (payload.take 2020).length)) := by
      rw [splice_eq _ _ _ (by rw [hlen, hs.buffer, RTP_RECV_BUFFER_SIZE]; omega), hlen]
      simp
    have hreads := parse_headers (s.m_rtp_packet.getD .reset) htype ssrc timestamp sequence
      (payload.take 2020 ++ s.m_recv_buffer.drop (28 + (payload.take 2020).length)) []
      (k := (payload.take 2020).length) (by omega) (by rw [List.length_append]; omega)
    rw [List.take_left] at hreads
    unfold receive_rtp_packet_direct
    rw [if_pos hs.init, hdata]
    dsimp only
    rw [hbuffer, hlen, if_neg (by omega)]
    generalize RTPPacket.parse _ _ _ = r at hreads ⊢
    exact ⟨r.1, if_pos hreads.accepted, hreads.payload.trans hpayload⟩
  · rename_i hreorder
    rw [if_neg (by rcases hparses with h | h | h; exacts [absurd (.inl h) hreorder, absurd (.inr h) hreorder, h])]
    have hreads := parse_packet .reset htype ssrc timestamp sequence beyond
      (show (payload.take 2020).length < 2 ^ 64 by omega)
    unfold parsed
    dsimp only
    rw [hdata]
    generalize RTPPacket.parse _ _ _ = r at hreads ⊢
    exact ⟨r.1, if_pos hreads.accepted, hreads.payload.trans hpayload⟩

end RTPSessionReceiver

/-! ## Both ends -/

/-- A payload for the sender, the time of sending, and what the receiver has behind its copy of the datagram. -/
structure AudioCall where
  data : Buffer
  len : Nat
  now_ms : UInt32
  beyond : Bytes

/-- What became of a payload: whether the builder accepted it, its bytes, and the packet the receiver parsed. -/
structure Heard where
  accepted : Bool
  sent : Bytes
  packet : Option RTPPacket

/-- The packet's payload is the payload that was sent. -/
def Heard.Whole (h : Heard) : Prop := ∃ p, h.packet = some p ∧ p.m_payload.read 0 p.m_payload_len = h.sent

namespace RTPAACPacketBuilder

/-- The datagram of the last payload, with the time `send_aac_data` writes into it. -/
def datagram (b : RTPAACPacketBuilder) (now_ms : UInt32) : Bytes := splice b.receive_rtp_packet 4 (be32 now_ms.toNat)

/-- A payload is sent, and its datagram is what the receiver's next call finds. -/
def deliver (n : Int) (st : RTPAACPacketBuilder × RTPSessionReceiver) (c : AudioCall) :
    (RTPAACPacketBuilder × RTPSessionReceiver) × Heard :=
  match st.1.send_data c.data c.len with
  | (b, false) => ((b, st.2), ⟨false, c.data.read 0 c.len, none⟩)
  | (b, true) =>
    let arrived : Buffer := ⟨b.datagram c.now_ms, c.beyond⟩
    ((b, (st.2.receive_rtp_packet n arrived).1), ⟨true, c.data.read 0 c.len, st.2.parsed_by n arrived⟩)

theorem datagram_eq {b b' : RTPAACPacketBuilder} {data : Buffer} {len : Nat} (hsend : b.send_data data len = (b', true))
    (now_ms : UInt32) :
    b'.datagram now_ms = headers 97 b.m_ssrc now_ms b.m_sequence ++ data.read 0 len := by
  unfold send_data at hsend
  split at hsend
  · cases hsend
  · obtain ⟨rfl, -⟩ := Prod.mk.inj hsend
    have hfits : 4 + (be32 now_ms.toNat).length ≤ (b.header ++ data.read 0 len).length := by
      rw [List.length_append, be32_length]
      exact Nat.le_add_right_of_le (show 8 ≤ 28 by decide)
    exact splice_eq _ _ _ hfits

section
variable {n : Int} {b : RTPAACPacketBuilder} {s : RTPSessionReceiver}

theorem deliver_listening (hs : s.Listening) (c : AudioCall) : (deliver n (b, s) c).1.2.Listening := by
  unfold deliver
  split
  · exact hs
  · exact hs.receive n _

/-- What the receiver gets of one accepted payload. -/
theorem deliver_packet (hs : s.Listening) {c : AudioCall} (hok : (deliver n (b, s) c).2.accepted = true) :
    (deliver n (b, s) c).2.sent = c.data.read 0 c.len ∧
      (s.Parses n → ∃ p, (deliver n (b, s) c).2.packet = some p ∧
        p.m_payload.read 0 p.m_payload_len = (c.data.read 0 c.len).take 2020) ∧
      (¬ s.Parses n → (deliver n (b, s) c).2.packet = none) := by
  unfold deliver at hok ⊢
  split at hok
  · cases hok
  · rename_i b' hsend
    replace hsend : b.send_data c.data c.len = (b', true) := hsend
    dsimp only
    rw [datagram_eq hsend]
    refine ⟨rfl, fun hparses => ?_, fun hparses => s.parsed_by_none hparses _⟩
    exact s.parsed_by_payload hs hparses (show 97 < 128 by decide) b.m_ssrc c.now_ms b.m_sequence _ c.beyond

/-- One payload. -/
theorem deliver_whole_iff (hs : s.Listening) {c : AudioCall} (hok : (deliver n (b, s) c).2.accepted = true) :
    (deliver n (b, s) c).2.Whole ↔ s.Parses n ∧ c.len ≤ 2020 := by
  obtain ⟨hsent, hparsed, hnone⟩ := deliver_packet hs hok
  have hlen : (c.data.read 0 c.len).length = c.len := Buffer.read_length _ _ _
  unfold Heard.Whole
  rw [hsent]
  by_cases hparses : s.Parses n
  · obtain ⟨r, hr, hread⟩ := hparsed hparses
    constructor
    · rintro ⟨p, hp, hwhole⟩
      obtain rfl : r = p := Option.some.inj (hr.symm.trans hp)
      -- what is read is no longer than the buffer has room for
      have hcut := congrArg List.length (hread.symm.trans hwhole)
      rw [List.length_take, hlen] at hcut
      exact ⟨hparses, by omega⟩
    · rintro ⟨-, hsmall⟩
      exact ⟨r, hr, by rw [hread, List.take_of_length_le (by rwa [hlen])]⟩
  · refine iff_of_false ?_ (fun h => hparses h.1)
    rintro ⟨p, hp, -⟩
    rw [hnone hparses] at hp
    cases hp

/-- In a run of accepted payloads each arrives whole exactly if it is parsed and has at most 2020 bytes. -/
theorem audio_whole_iff (hs : s.Listening) (calls : List AudioCall)
    (hok : ∀ r ∈ trace (deliver n) (b, s) calls, r.2.accepted = true) :
    (∀ r ∈ trace (deliver n) (b, s) calls, r.2.Whole) ↔
      Along (deliver n) (fun st c => st.2.Parses n ∧ c.len ≤ 2020) (b, s) calls := by
  apply outputs_iff (deliver n) Heard.Whole (fun h => h.accepted = true) (fun st => st.2.Listening)
  · intro st c hs
    exact deliver_listening hs c
  · intro st c hs hok
    exact deliver_whole_iff hs hok
  · exact hs
  · exact hok

end

/-- A receiver without reordering. -/
def listener : RTPSessionReceiver := (RTPSessionReceiver.init {} false {} [49] 9 true (.zeros _)).1

theorem listener_listening : listener.Listening := RTPSessionReceiver.init_listening false {} [49] 9 (.zeros _)

/-- A payload of `k` bytes. -/
def payload (k : Nat) : AudioCall := ⟨⟨.replicate k 0x21, []⟩, k, 0, []⟩

theorem audio_whole_two :
    (trace (deliver 0) ({}, listener) [payload 2, payload 2]).length = 2 ∧
      ∀ r ∈ trace (deliver 0) ({}, listener) [payload 2, payload 2], r.2.Whole :=
  ⟨rfl, (audio_whole_iff listener_listening [payload 2, payload 2] (by decide +kernel)).2 (by decide +kernel)⟩

/-- A payload one byte longer than the receiver has room for is accepted. -/
theorem audio_cut : ¬ ∀ (n : Int) (b : RTPAACPacketBuilder) (s : RTPSessionReceiver) (calls : List AudioCall),
    s.Listening → (∀ r ∈ trace (deliver n) (b, s) calls, r.2.accepted = true) →
      ∀ r ∈ trace (deliver n) (b, s) calls, ∀ p, r.2.packet = some p →
        p.m_payload.read 0 p.m_payload_len = r.2.sent := by
  intro hwhole
  have hok : ∀ r ∈ trace (deliver 0) ({}, listener) [payload 2021], r.2.accepted = true := by decide +kernel
  obtain ⟨hsent, hparsed, -⟩ := deliver_packet listener_listening (hok _ (List.mem_singleton.2 rfl))
  obtain ⟨p, hp, hread⟩ := hparsed (by decide)
  have hsame := hwhole 0 {} listener [payload 2021] listener_listening hok _ (List.mem_singleton.2 rfl) p hp
  rw [hsent, hread] at hsame
  have hlen := congrArg List.length hsame
  rw [List.length_take, Buffer.read_length] at hlen
  exact absurd hlen (by decide)

end RTPAACPacketBuilder

end RtcClient
