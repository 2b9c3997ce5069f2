import RtcClient.Rtp.PacketBuilder
import RtcClient.Rtp.Transmitter
/-!
# The video sending session

`send_h264_data` packs a frame, writes the frame's own values into the packet
headers and hands the packets to the transmitter.
-/

namespace RtcClient

open Lib

structure RTPSessionVideo where
  m_initialize : Bool := false
  m_h264_rtp_builder : Option RTPH264PacketBuilder := none
  m_transmitter : Option RTPTransmitterV4 := none
deriving DecidableEq, Repr

namespace RTPSessionVideo

/-- `allocated`: there is memory for the packets buffer. `port` and `bound`: see the transmitter. -/
def init (s : RTPSessionVideo) (sequenceStart : UInt16) (timestampStart ssrc : UInt32) (allocated : Bool) (port : Nat)
    (bound : Bool) : RTPSessionVideo × Bool :=
  if s.m_initialize then (s, true)
  else
    match RTPH264PacketBuilder.init {} sequenceStart timestampStart allocated with
    | (_, false) => ({ m_initialize := false, m_h264_rtp_builder := none, m_transmitter := none }, false)
    | (builder, true) =>
      match RTPTransmitterV4.init {} none port bound with
      | (_, false) => ({ m_initialize := false, m_h264_rtp_builder := none, m_transmitter := none }, false)
      | (transmitter, true) =>
        ({ m_initialize := true
           m_h264_rtp_builder := some (builder.set_ssrc ssrc)
           m_transmitter := some transmitter }, true)

def add_destination (s : RTPSessionVideo) (ip : Bytes) (port : Nat) : RTPSessionVideo × Bool :=
  if s.m_initialize then ({ s with m_transmitter := s.m_transmitter.map (·.add_destination ip port) }, true)
  else (s, false)

/-- What `send_h264_data` writes into the headers of a packet. -/
def rewrite (num : Nat) (now_ms : UInt32) (isLast : Bool) (packet : Bytes) : Bytes :=
  let packet := splice packet 16 (be16 num)
  let packet := splice packet 18 (be16 0)
  let packet := if isLast then splice packet 1 [packet.getD 1 0 ||| 0x80] else packet
  splice packet 4 (be32 now_ms.toNat)

/-- All packets of a frame. Their number goes through a `uint8_t`. -/
def rewrite_packets (now_ms : UInt32) (packets : List Bytes) : List Bytes :=
  packets.mapIdx (fun i p => rewrite (packets.length % 256) now_ms (i + 1 = packets.length) p)

/-- The sending loop: the packets handed to the transmitter, up to the first it does
not send. `sendto i` answers for the `i`-th packet. -/
def send_loop (transmitter : RTPTransmitterV4) (sendto : Nat → IPAddrV4 → Int) (i : Nat) :
    List Bytes → List Bytes × Bool
  | [] => ([], true)
  | packet :: rest =>
    if transmitter.send_data (sendto i) packet then
      let r := send_loop transmitter sendto (i + 1) rest
      (packet :: r.1, r.2)
    else ([packet], false)

/-- The packets handed to the transmitter, and the result. `addr` is the address of the data. -/
def send_h264_data (s : RTPSessionVideo) (data : Buffer) (addr length : Nat) (now_ms : UInt32)
    (sendto : Nat → IPAddrV4 → Int) : RTPSessionVideo × List Bytes × Bool :=
  match s.m_initialize, s.m_h264_rtp_builder, s.m_transmitter with
  | true, some builder, some transmitter =>
    match builder.send_data data addr length with
    | (builder, false) => ({ s with m_h264_rtp_builder := some builder }, [], false)
    | (builder, true) =>
      match builder.receive_rtp_packets [] with
      | (builder, _, false) => ({ s with m_h264_rtp_builder := some builder }, [], false)
      | (builder, packets, true) =>
        ({ s with m_h264_rtp_builder := some builder },
          send_loop transmitter sendto 0 (rewrite_packets now_ms packets))
  | _, _, _ => (s, [], false)

end RTPSessionVideo

end RtcClient
