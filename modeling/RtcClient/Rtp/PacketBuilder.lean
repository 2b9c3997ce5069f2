import RtcClient.Codec.StartCode
import RtcClient.Rtp.Packet
/-!
# Packing H.264 frames into RTP packets

`send_data` splits a frame at its start codes. `receive_rtp_packets` packs the NAL
units: small ones together (STAP-A), large ones in fragments (FU-A). Packets are
values here; in the code they follow each other in one buffer, of which
`m_current_pos` is the offset written next.
-/

namespace RtcClient

open Lib

def RTP_PACKET_SIZE : Nat := 1400

def RTP_PAYLOAD_SIZE : Nat := RTP_PACKET_SIZE - sizeofRTPHeader - sizeofRTPExtensionHeader

def RTP_PACKETS_BUFFER_SIZE : Nat := 1024 * 256

structure RTPH264PacketBuilder where
  m_initialize : Bool := false
  m_ssrc : UInt32 := 0
  m_sequence : UInt32 := 0
  m_timestamp : UInt32 := 0
  m_nalu_vec : List Bytes := []
  m_current_pos : Nat := 0
  /-- Offset and length of every write so far. The code keeps no such log. -/
  writes : List (Nat × Nat) := []
deriving DecidableEq, Repr

/-- The headers the builder writes in front of a payload. -/
def packetHeader (ssrc timestamp sequence : UInt32) : Bytes :=
  RTPHeader.bytes ⟨0, 1, 0, 2, 96, 0, sequence.toNat % 65536, timestamp.toNat, ssrc.toNat⟩ ++
    RTPExtensionHeader.bytes ⟨0, 3, 0, sequence.toNat / 65536 % 65536, 0, 0⟩

namespace RTPH264PacketBuilder

/-- `allocated` is whether there is memory for the packets buffer. -/
def init (b : RTPH264PacketBuilder) (sequenceStart : UInt16) (timestampStart : UInt32) (allocated : Bool) :
    RTPH264PacketBuilder × Bool :=
  if b.m_initialize then (b, true)
  else if allocated then
    ({ b with m_sequence := sequenceStart.toUInt32, m_timestamp := timestampStart, m_initialize := true }, true)
  else (b, false)

def set_ssrc (b : RTPH264PacketBuilder) (newssrc : UInt32) : RTPH264PacketBuilder := { b with m_ssrc := newssrc }

/-! ## Splitting a frame -/

/-- `while (!*(startCode++));`. The search ends with the memory. -/
def skip_zeros (data : Buffer) (startCode : Nat) : Nat :=
  if data.get startCode = 0 ∧ startCode < data.bytes.length + data.beyond.length then skip_zeros data (startCode + 1)
  else startCode + 1
termination_by data.bytes.length + data.beyond.length - startCode

theorem lt_skip_zeros (data : Buffer) (startCode : Nat) : startCode < skip_zeros data startCode := by
  fun_induction skip_zeros data startCode <;> omega

/-- The loop of `send_data`. NAL unit lengths are converted to `int`. -/
def split_loop (data : Buffer) (addr startCode stop : Nat) : List Bytes :=
  if startCode < stop then
    let start := skip_zeros data startCode
    let nextStart := avc_find_start_code data addr start stop
    let naluLen := int32 (nextStart - start)
    let rest := split_loop data addr nextStart stop
    if naluLen > 0 then data.read start naluLen.toNat :: rest else rest
  else []
termination_by stop - startCode
decreasing_by
  have := lt_avc_find_start_code data addr (lt_skip_zeros data startCode) ‹startCode < stop›
  omega

/-- `addr` is the address of the data. -/
def send_data (b : RTPH264PacketBuilder) (data : Buffer) (addr len : Nat) : RTPH264PacketBuilder × Bool :=
  ({ b with m_nalu_vec := split_loop data addr (avc_find_start_code data addr 0 len) len }, true)

/-! ## Building packets -/

/-- Write at the current position. -/
def put (b : RTPH264PacketBuilder) (bs : Bytes) : RTPH264PacketBuilder :=
  { b with m_current_pos := b.m_current_pos + bs.length, writes := b.writes ++ [(b.m_current_pos, bs.length)] }

/-- The next packet's headers. -/
def header (b : RTPH264PacketBuilder) : Bytes := packetHeader b.m_ssrc b.m_timestamp b.m_sequence

/-- `m_sequence++`. -/
def next (b : RTPH264PacketBuilder) : RTPH264PacketBuilder := { b with m_sequence := b.m_sequence + 1 }

/-- How many of the `leftLen` bytes go into the next fragment. -/
def copy_len (leftLen : Nat) : Nat :=
  if RTP_PAYLOAD_SIZE - 2 < leftLen then RTP_PAYLOAD_SIZE - 2 else leftLen

theorem copy_len_eq (leftLen : Nat) : copy_len leftLen = min 1370 leftLen := by
  rw [copy_len, show RTP_PAYLOAD_SIZE - 2 = 1370 from rfl]
  split <;> omega

/-- The loop of `build_fua_packet`: `leftLen` bytes of `data` are left. -/
def fua_loop (b : RTPH264PacketBuilder) (fnri type : UInt8) (data : Bytes) (leftLen : Nat) (isStart : Bool)
    (rtpvec : List Bytes) : RTPH264PacketBuilder × List Bytes × Bool :=
  if b.m_current_pos + (sizeofRTPHeader + sizeofRTPExtensionHeader) ≥ RTP_PACKETS_BUFFER_SIZE then (b, rtpvec, false)
  else
    let header := b.header
    let b := b.put header
    if b.m_current_pos + 2 ≥ RTP_PACKETS_BUFFER_SIZE then (b, rtpvec, false)
    else
      let copyLen := copy_len leftLen
      let fu := [fnri ||| 0x1c,
        if isStart then 0x80 ||| type else if copyLen = leftLen then 0x40 ||| type else 0x00 ||| type]
      let b := b.put fu
      if b.m_current_pos + copyLen ≥ RTP_PACKETS_BUFFER_SIZE then (b, rtpvec, false)
      else
        let body := (data.drop (data.length - leftLen)).take copyLen
        let b := (b.put body).next
        let rtpvec := rtpvec ++ [header ++ fu ++ body]
        if leftLen - copyLen ≤ 0 then (b, rtpvec, true)
        else fua_loop b fnri type data (leftLen - copyLen) false rtpvec
termination_by leftLen
decreasing_by
  have := copy_len_eq leftLen
  omega

def build_fua_packet (b : RTPH264PacketBuilder) (data : Bytes) (rtpvec : List Bytes) :
    RTPH264PacketBuilder × List Bytes × Bool :=
  b.fua_loop (data.headD 0 &&& 0xE0) (data.headD 0 &&& 0x1F) data.tail data.tail.length true rtpvec

/-- The STAP-A loop of `build_packet`. Its check does not count the bytes it puts in
front of each NAL unit. -/
def stapa_loop (b : RTPH264PacketBuilder) (packet : Bytes) (isBegin : Bool) :
    List Bytes → RTPH264PacketBuilder × Bytes × Bool
  | [] => (b, packet, true)
  | data :: rest =>
    if b.m_current_pos + data.length < RTP_PACKETS_BUFFER_SIZE then
      let mark : Bytes := if isBegin then [0x18] else []
      let bs := mark ++ be16 data.length ++ data
      stapa_loop (b.put bs) (packet ++ bs) false rest
    else (b, packet, false)

def build_packet (b : RTPH264PacketBuilder) (datavec : List Bytes) (rtpvec : List Bytes) :
    RTPH264PacketBuilder × List Bytes × Bool :=
  if b.m_current_pos + (sizeofRTPHeader + sizeofRTPExtensionHeader) ≥ RTP_PACKETS_BUFFER_SIZE then (b, rtpvec, false)
  else
    let header := b.header
    let b := b.put header
    match datavec with
    | [data] =>
      if b.m_current_pos + data.length < RTP_PACKETS_BUFFER_SIZE then
        ((b.put data).next, rtpvec ++ [header ++ data], true)
      else (b, rtpvec, false)
    | datavec =>
      match b.stapa_loop header true datavec with
      | (b, packet, true) => (b.next, rtpvec ++ [packet], true)
      | (b, _, false) => (b, rtpvec, false)

/-- `build_packet`, if there is something to build. -/
def flush (b : RTPH264PacketBuilder) (tmp packets : List Bytes) : RTPH264PacketBuilder × List Bytes × Bool :=
  if tmp.length > 0 then b.build_packet tmp packets else (b, packets, true)

/-- The loop of `receive_rtp_packets` over the NAL units, and what follows it. -/
def receive_loop (b : RTPH264PacketBuilder) (packets tmp : List Bytes) (totalLen : Nat) :
    List Bytes → RTPH264PacketBuilder × List Bytes × Bool
  | [] => b.flush tmp packets
  | nalu :: rest =>
    if nalu.length > RTP_PAYLOAD_SIZE then
      match b.flush tmp packets with
      | (b, packets, false) => (b, packets, false)
      | (b, packets, true) =>
        match b.build_fua_packet nalu packets with
        | (b, packets, false) => (b, packets, false)
        | (b, packets, true) => receive_loop b packets [] (if tmp.length > 0 then 0 else totalLen) rest
    else if totalLen < RTP_PAYLOAD_SIZE ∧ RTP_PAYLOAD_SIZE < totalLen + nalu.length then
      match b.flush tmp packets with
      | (b, packets, false) => (b, packets, false)
      | (b, packets, true) => receive_loop b packets [nalu] nalu.length rest
    else receive_loop b packets (tmp ++ [nalu]) (totalLen + nalu.length) rest

def receive_rtp_packets (b : RTPH264PacketBuilder) (packets : List Bytes) :
    RTPH264PacketBuilder × List Bytes × Bool :=
  receive_loop { b with m_current_pos := 0 } packets [] 0 b.m_nalu_vec

end RTPH264PacketBuilder

end RtcClient
