import RtcClient.Rtp.FrameAssembler
/-!
# The users of a room

A `RoomUser` receives another member's streams. `receive_video` takes a packet from
the receiver, lets the assembler make a frame of it and collects the frames of one
access unit, which it hands to the callback when a packet has the marker.
-/

namespace RtcClient

open Lib

def RTP_H264_RECV_BUFFER_SIZE : Nat := 1024 * 1024

structure RoomUser where
  m_video_initialize : Bool := false
  m_audio_initialize : Bool := false
  m_bind_major_port : Nat := 0
  m_bind_audio_port : Nat := 0
  m_major_receiver : Option RTPSessionReceiver := none
  m_audio_receiver : Option RTPSessionReceiver := none
  m_h264_frame_assembler : Option RTPH264FrameAssembler := none
  m_h264_rtp_buffer : Bytes := []
  m_h264_rtp_buffer_used_len : Nat := 0
  m_h264_callback : Bool := false
  m_aac_callback : Bool := false
  m_user_id : Bytes := []
  m_user_name : Bytes := []
  m_user_uuid : Bytes := []
  m_user_ip_addr : Bytes := []
  m_video_ssrc : UInt32 := 0
  m_audio_ssrc : UInt32 := 0
  m_pinhole_uuid : Bytes := []
deriving DecidableEq, Repr

/-- What a receive callback is given. -/
structure Delivery where
  uuid : Bytes
  data : Bytes
  ssrc : Nat
  timestamp : Nat
deriving DecidableEq, Repr

/-- What the system answers while a receiver is set up: the port it gives (0 if there is
none), whether it can be bound, and what the new buffers hold. -/
structure ReceiverEnv where
  port : Nat
  bound : Bool
  recvMemory : Block RTP_RECV_BUFFER_SIZE
  assemblerMemory : Block ASSEMBLER_BUFFER_SIZE
  frameMemory : Block RTP_H264_RECV_BUFFER_SIZE

namespace RoomUser

def initialize_video (u : RoomUser) (pinholeIP : Bytes) (pinholePort : Nat) (env : ReceiverEnv) : RoomUser × Bool :=
  if u.m_video_initialize then (u, true)
  else if env.port = 0 then (u, false)
  else
    let u := { u with m_bind_major_port := env.port }
    match RTPSessionReceiver.init {} true ⟨0, env.port⟩ pinholeIP pinholePort env.bound env.recvMemory with
    | (_, false) =>
      ({ u with m_major_receiver := none, m_h264_frame_assembler := none, m_h264_rtp_buffer := [] }, false)
    | (receiver, true) =>
      ({ u with
          m_major_receiver := some receiver
          m_h264_frame_assembler := some (RTPH264FrameAssembler.init {} env.assemblerMemory)
          m_h264_rtp_buffer := env.frameMemory.bytes
          m_h264_rtp_buffer_used_len := 0
          m_video_initialize := true }, true)

def initialize_audio (u : RoomUser) (pinholeIP : Bytes) (pinholePort : Nat) (env : ReceiverEnv) : RoomUser × Bool :=
  if u.m_audio_initialize then (u, true)
  else if env.port = 0 then (u, false)
  else
    let u := { u with m_bind_audio_port := env.port }
    match RTPSessionReceiver.init {} true ⟨0, env.port⟩ pinholeIP pinholePort env.bound env.recvMemory with
    | (_, false) => ({ u with m_audio_receiver := none }, false)
    | (receiver, true) => ({ u with m_audio_receiver := some receiver, m_audio_initialize := true }, true)

/-- `initialize`. -/
def init (u : RoomUser) (pinholeIP : Bytes) (pinholePort : Nat) (ssrc : UInt32) (env : ReceiverEnv) : RoomUser × Bool :=
  if u.m_video_ssrc = ssrc then u.initialize_video pinholeIP pinholePort env
  else if u.m_audio_ssrc = ssrc then u.initialize_audio pinholeIP pinholePort env
  else (u, false)

/-- What `receive_video` does with a packet. -/
def process_video (u : RoomUser) (rtp : RTPPacket) : RoomUser × Option Delivery :=
  match u.m_h264_frame_assembler with
  | none => (u, none)
  | some assembler =>
    let (assembler, complete) := assembler.push_packet rtp
    let u := { u with m_h264_frame_assembler := some assembler }
    if complete then
      let data := assembler.frame
      let len := assembler.m_buffer_used_len
      let used :=
        if u.m_h264_rtp_buffer_used_len + len ≥ RTP_H264_RECV_BUFFER_SIZE then 0 else u.m_h264_rtp_buffer_used_len
      let u := { u with
        m_h264_rtp_buffer := splice u.m_h264_rtp_buffer used data, m_h264_rtp_buffer_used_len := used + len }
      if rtp.m_marker then
        ({ u with m_h264_rtp_buffer_used_len := 0 },
          if u.m_h264_callback then
            some ⟨u.m_user_uuid, u.m_h264_rtp_buffer.take u.m_h264_rtp_buffer_used_len, rtp.m_ssrc, rtp.m_timestamp⟩
          else none)
      else (u, none)
    else (u, none)

/-- `arrived` is the datagram the receiver finds. -/
def receive_video (u : RoomUser) (arrived : Buffer) : RoomUser × Option Delivery :=
  match u.m_major_receiver with
  | none => (u, none)
  | some receiver =>
    let (receiver, rtp) := receiver.receive_rtp_packet 5 arrived
    let u := { u with m_major_receiver := some receiver }
    match rtp with
    | none => (u, none)
    | some rtp => u.process_video rtp

def receive_audio (u : RoomUser) (arrived : Buffer) : RoomUser × Option Delivery :=
  match u.m_audio_receiver with
  | none => (u, none)
  | some receiver =>
    let (receiver, rtp) := receiver.receive_rtp_packet 5 arrived
    let u := { u with m_audio_receiver := some receiver }
    match rtp with
    | none => (u, none)
    | some rtp =>
      (u, if u.m_aac_callback then
          some ⟨u.m_user_uuid, rtp.m_payload.read 0 rtp.m_payload_len, rtp.m_ssrc, rtp.m_timestamp⟩
        else none)

end RoomUser

end RtcClient
