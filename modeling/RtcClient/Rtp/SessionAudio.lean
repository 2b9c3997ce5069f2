import RtcClient.Rtp.Packet
import RtcClient.Rtp.Transmitter
/-!
# The audio sending session

`RTPAACPacketBuilder` puts an AAC frame into one RTP packet, always at the start of
its buffer, and `send_aac_data` writes the time into it and hands it to the transmitter.
-/

namespace RtcClient

open Lib

/-- The builder's `RTP_PACKETS_BUFFER_SIZE`, half of the H.264 builder's. -/
def AAC_RTP_PACKETS_BUFFER_SIZE : Nat := 1024 * 128

structure RTPAACPacketBuilder where
  m_initialize : Bool := false
  m_ssrc : UInt32 := 0
  m_sequence : UInt32 := 0
  m_timestamp : UInt32 := 0
  /-- `m_rtp_buffer` up to `m_current_pos`. -/
  m_packet : Bytes := []
deriving DecidableEq, Repr

namespace RTPAACPacketBuilder

/-- `allocated` is whether there is memory for the packets buffer. -/
def init (b : RTPAACPacketBuilder) (sequenceStart : UInt16) (timestampStart : UInt32) (allocated : Bool) :
    RTPAACPacketBuilder × Bool :=
  if b.m_initialize then (b, true)
  else if allocated then
    ({ b with m_sequence := sequenceStart.toUInt32, m_timestamp := timestampStart, m_initialize := true }, true)
  else (b, false)

def set_ssrc (b : RTPAACPacketBuilder) (newssrc : UInt32) : RTPAACPacketBuilder := { b with m_ssrc := newssrc }

/-- The next packet's headers. -/
def header (b : RTPAACPacketBuilder) : Bytes :=
  RTPHeader.bytes ⟨0, 1, 0, 2, 97, 0, b.m_sequence.toNat % 65536, b.m_timestamp.toNat, b.m_ssrc.toNat⟩ ++
    RTPExtensionHeader.bytes ⟨0, 3, 0, b.m_sequence.toNat / 65536 % 65536, 0, 0⟩

def send_data (b : RTPAACPacketBuilder) (data : Buffer) (len : Nat) : RTPAACPacketBuilder × Bool :=
  if len + sizeofRTPHeader + sizeofRTPExtensionHeader ≥ AAC_RTP_PACKETS_BUFFER_SIZE then (b, false)
  else ({ b with m_packet := b.header ++ data.read 0 len, m_sequence := b.m_sequence + 1 }, true)

def receive_rtp_packet (b : RTPAACPacketBuilder) : Bytes := b.m_packet

end RTPAACPacketBuilder

structure RTPSessionAudio where
  m_initialize : Bool := false
  m_aac_rtp_builder : Option RTPAACPacketBuilder := none
  m_transmitter : Option RTPTransmitterV4 := none
deriving DecidableEq, Repr

namespace RTPSessionAudio

/-- `allocated`: there is memory for the packets buffer. `port` and `bound`: see the transmitter. -/
def init (s : RTPSessionAudio) (sequenceStart : UInt16) (timestampStart ssrc : UInt32) (allocated : Bool) (port : Nat)
    (bound : Bool) : RTPSessionAudio × Bool :=
  if s.m_initialize then (s, true)
  else
    match RTPAACPacketBuilder.init {} sequenceStart timestampStart allocated with
    | (_, false) => ({ m_initialize := false, m_aac_rtp_builder := none, m_transmitter := none }, false)
    | (builder, true) =>
      match RTPTransmitterV4.init {} none port bound with
      | (_, false) => ({ m_initialize := false, m_aac_rtp_builder := none, m_transmitter := none }, false)
      | (transmitter, true) =>
        ({ m_initialize := true
           m_aac_rtp_builder := some (builder.set_ssrc ssrc)
           m_transmitter := some transmitter }, true)

def add_destination (s : RTPSessionAudio) (ip : Bytes) (port : Nat) : RTPSessionAudio × Bool :=
  if s.m_initialize then ({ s with m_transmitter := s.m_transmitter.map (·.add_destination ip port) }, true)
  else (s, false)

/-- The packets handed to the transmitter, and the result. -/
def send_aac_data (s : RTPSessionAudio) (data : Buffer) (length : Nat) (now_ms : UInt32) (sendto : IPAddrV4 → Int) :
    RTPSessionAudio × List Bytes × Bool :=
  match s.m_initialize, s.m_aac_rtp_builder, s.m_transmitter with
  | true, some builder, some transmitter =>
    match builder.send_data data length with
    | (builder, false) => ({ s with m_aac_rtp_builder := some builder }, [], false)
    | (builder, true) =>
      let rtp := splice builder.receive_rtp_packet 4 (be32 now_ms.toNat)
      ({ s with m_aac_rtp_builder := some { builder with m_packet := rtp } }, [rtp], transmitter.send_data sendto rtp)
  | _, _, _ => (s, [], false)

end RTPSessionAudio

end RtcClient
