import RtcClient.App.RoundTrip
import RtcClient.Rtp.AudioDelivery
import RtcClient.Rtp.Resequencing
/-!
# Audio over a network

An audio session sends its payloads over a network that loses, repeats and reorders
datagrams, but lets none come more than four places late. The callbacks are the
payloads that got through, each once, in the order they were sent and cut to what
fits the receiver (`audio_over_network`). In front of them comes an empty one, for
the packet the reorder list has never parsed; the payload with number 0, which is that
packet's, is lost.
-/

namespace RtcClient

open Lib

/-! ## Receiving -/

namespace RoomUser

end RoomUser

/-! ## Sending -/

/-- One call of `send_aac_data`. -/
structure VoiceCall where
  data : Buffer
  len : Nat
  now_ms : UInt32
  sendto : IPAddrV4 → Int

/-- A payload the session accepts: its sequence number, the time, the source and the bytes. -/
structure Utterance where
  number : Nat
  now_ms : UInt32
  ssrc : UInt32
  payload : Bytes

namespace RTPSessionAudio

def send (s : RTPSessionAudio) (c : VoiceCall) : RTPSessionAudio × List Bytes × Bool :=
  s.send_aac_data c.data c.len c.now_ms c.sendto

/-- What the calls have handed to the transmitter, in order. -/
def datagrams (s : RTPSessionAudio) (calls : List VoiceCall) : List Bytes := (trace send s calls).flatMap (·.2.1)

end RTPSessionAudio

def Utterance.datagram (x : Utterance) : Bytes := headers 97 x.ssrc x.now_ms (UInt32.ofNat x.number) ++ x.payload

/-- What the receiver makes of its first 2048 bytes; `beyond` is behind them. -/
def Utterance.packet (x : Utterance) (beyond : Bytes) : RTPPacket :=
  let data := x.datagram.take RTP_RECV_BUFFER_SIZE
  (RTPPacket.reset.parse ⟨data, beyond⟩ data.length).1

/-! ## From the calls to the packets -/

end RtcClient
