import RtcClient.Common.Utils
/-!
# The UDP transmitter

`RTPTransmitterV4` owns a bound socket and the addresses it sends to. What the
operating system answers (whether a socket can be bound, what `sendto` returns,
which datagram `recvfrom` finds) is an argument of each operation.
-/

namespace RtcClient

open Lib

/-- A destination, as given. Its socket address is computed from the two fields. -/
structure IPAddrV4 where
  m_ipaddr : Bytes
  m_port : Nat
deriving DecidableEq, Repr

def IPAddrV4.new (ip : Bytes) (port : Nat) : IPAddrV4 := ⟨c_str ip, port⟩

/-- The local address to bind. -/
structure RTPTransParamsV4 where
  bindIP : Nat := 0
  bindPort : Nat := 0
deriving DecidableEq, Repr

structure RTPTransmitterV4 where
  m_initialize : Bool := false
  m_bind_ip : Nat := 0
  m_bind_port : Nat := 0
  m_destinations : List IPAddrV4 := []
deriving DecidableEq, Repr

namespace RTPTransmitterV4

/-- `init`: `port` is what `get_available_port` returns and `bound` whether the
socket could be created and bound. -/
def init (t : RTPTransmitterV4) (params : Option RTPTransParamsV4) (port : Nat) (bound : Bool) :
    RTPTransmitterV4 × Bool :=
  if t.m_initialize then (t, true)
  else
    let t := match params with
      | some ps => { t with m_bind_ip := ps.bindIP, m_bind_port := ps.bindPort }
      | none => { t with m_bind_ip := 0, m_bind_port := port }
    if bound then ({ t with m_initialize := true }, true) else (t, false)

def add_destination (t : RTPTransmitterV4) (ip : Bytes) (port : Nat) : RTPTransmitterV4 :=
  { t with m_destinations := t.m_destinations ++ [IPAddrV4.new ip port] }

/-- `send_data` succeeds if every `sendto` takes the whole datagram. -/
def send_data (t : RTPTransmitterV4) (sendto : IPAddrV4 → Int) (data : Bytes) : Bool :=
  t.m_destinations.all (fun addr => sendto addr != -1 && data.length ≤ sendto addr)

/-- `receive_data`: `arrived` is the next datagram, empty if there is none.
`recvfrom` cuts it to the buffer. -/
def receive_data (t : RTPTransmitterV4) (arrived : Bytes) (bufferlen : Nat) : Bytes :=
  if t.m_initialize then arrived.take bufferlen else []

end RTPTransmitterV4

end RtcClient
