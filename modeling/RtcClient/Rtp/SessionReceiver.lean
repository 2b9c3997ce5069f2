import RtcClient.Lib.Jitter
import RtcClient.Lib.Runs
import RtcClient.Rtp.Packet
import RtcClient.Rtp.Transmitter
/-!
# The receiving session and its reorder list

`receive_rtp_packet` with a reorder length keeps up to that many packets in a
list sorted by sequence number and gives out the first when one more has come.
-/

namespace RtcClient

open Lib

def RTP_RECV_BUFFER_SIZE : Nat := 1024 * 2

structure RTPSessionReceiver where
  m_initialize : Bool := false
  m_transmitter : Option RTPTransmitterV4 := none
  m_reorder : Bool := false
  m_reorder_list : List RTPPacket := []
  m_rtp_packet : Option RTPPacket := none
  m_recv_buffer : Bytes := []
deriving DecidableEq, Repr

namespace RTPSessionReceiver

/-- `init`: `bound` is whether the socket could be bound and `memory` what the new
receive buffer happens to hold. -/
def init (s : RTPSessionReceiver) (reorder : Bool) (recvParams : RTPTransParamsV4) (pinholeIP : Bytes)
    (pinholePort : Nat) (bound : Bool) (memory : Block RTP_RECV_BUFFER_SIZE) : RTPSessionReceiver × Bool :=
  if s.m_initialize then (s, true)
  else
    let s := { s with m_reorder := reorder }
    match RTPTransmitterV4.init {} (some recvParams) 0 bound with
    | (t, true) =>
      ({ s with
          m_transmitter := some (t.add_destination pinholeIP pinholePort), m_rtp_packet := some .reset,
          m_recv_buffer := memory.bytes, m_initialize := true }, true)
    | (_, false) =>
      ({ s with m_transmitter := none, m_rtp_packet := none, m_recv_buffer := [], m_initialize := false }, false)

/-- What `m_transmitter->receive_data` puts into the receive buffer. -/
def received (s : RTPSessionReceiver) (arrived : Buffer) : Bytes :=
  match s.m_transmitter with
  | some t => t.receive_data arrived.bytes RTP_RECV_BUFFER_SIZE
  | none => []

/-- The overload without reordering: parse the receive buffer, which behind the
received bytes still holds those of older datagrams. -/
def receive_rtp_packet_direct (s : RTPSessionReceiver) (arrived : Buffer) : RTPSessionReceiver × Option RTPPacket :=
  if s.m_initialize then
    let data := s.received arrived
    let s := { s with m_recv_buffer := splice s.m_recv_buffer 0 data }
    if data.length = 0 then (s, none)
    else
      let r := (s.m_rtp_packet.getD .reset).parse ⟨s.m_recv_buffer, []⟩ data.length
      ({ s with m_rtp_packet := some r.1 }, if r.2 then some r.1 else none)
  else (s, none)

/-- The backwards scan of the reorder list from position `it`: insert `packet`
behind the last smaller sequence number, or at the front, or drop it. -/
def insert_scan (list : List RTPPacket) (packet : RTPPacket) (it : Nat) : List RTPPacket :=
  match list[it]? with
  | none => list
  | some p =>
    if packet.m_sequence < p.m_sequence then
      match it with
      | 0 => packet :: list
      | it + 1 => insert_scan list packet it
    else if p.m_sequence < packet.m_sequence then list.insertIdx (it + 1) packet
    else list

/-- The packet a datagram is parsed into, if `parse` accepts it. The block it is
copied to has exactly its size. -/
def parsed (s : RTPSessionReceiver) (arrived : Buffer) : Option RTPPacket :=
  let data := s.received arrived
  let r := RTPPacket.reset.parse ⟨data, arrived.beyond⟩ data.length
  if r.2 then some r.1 else none

/-- The first half of the overload with reordering: put the datagram into the list. -/
def store (s : RTPSessionReceiver) (arrived : Buffer) : RTPSessionReceiver :=
  let data := s.received arrived
  let s' := { s with m_recv_buffer := splice s.m_recv_buffer 0 data }
  -- An empty list gets a packet that was never parsed, whatever has arrived.
  if s.m_reorder_list.length = 0 then { s' with m_reorder_list := [RTPPacket.reset] }
  else if data.length > 0 then
    match s.parsed arrived with
    | some packet =>
      { s' with m_reorder_list := insert_scan s.m_reorder_list packet (s.m_reorder_list.length - 1) }
    | none => s'
  else s'

/-- The second half: take out the first packet if the list is too long. -/
def take_first (s : RTPSessionReceiver) (reorderLen : Int) : RTPSessionReceiver × Option RTPPacket :=
  if (s.m_reorder_list.length : Int) > reorderLen then
    match s.m_reorder_list with
    | packet :: rest => ({ s with m_reorder_list := rest }, some packet)
    | [] => (s, none)
  else (s, none)

/-- The overload with reordering. -/
def receive_rtp_packet (s : RTPSessionReceiver) (reorderLen : Int) (arrived : Buffer) :
    RTPSessionReceiver × Option RTPPacket :=
  if reorderLen ≤ 0 ∨ s.m_reorder = false then s.receive_rtp_packet_direct arrived
  else (s.store arrived).take_first reorderLen

end RTPSessionReceiver

end RtcClient
