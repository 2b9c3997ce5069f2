import RtcClient.Lib.Bytes
import RtcClient.Lib.Runs
import RtcClient.Lib.Jitter
import RtcClient.Lib.Assoc
import RtcClient.Common.MsgQueue
import RtcClient.Common.Utils
import RtcClient.Common.Json
import RtcClient.Codec.StartCode
import RtcClient.Codec.AnnexB
import RtcClient.Rtp.Packet
import RtcClient.Rtp.PacketBuilder
import RtcClient.Rtp.Transmitter
import RtcClient.Rtp.SessionReceiver
import RtcClient.Rtp.ReorderList
import RtcClient.Rtp.FrameAssembler
import RtcClient.Rtp.Reassembly
import RtcClient.Rtp.Packing
import RtcClient.Rtp.SessionVideo
import RtcClient.Rtp.SessionAudio
import RtcClient.Rtp.Sequence
import RtcClient.App.RoomUser
import RtcClient.Rtp.Delivery
import RtcClient.App.RoundTrip
import RtcClient.App.Command
import RtcClient.App.MeetingRoom
import RtcClient.App.Senders
import RtcClient.App.Media
import RtcClient.Common.MsgAccounts
import RtcClient.Common.MsgWakeups
import RtcClient.Common.PortManager
import RtcClient.Rtp.Duplicates
import RtcClient.App.Membership
import RtcClient.App.Roster
import RtcClient.App.Users
import RtcClient.App.Callbacks
import RtcClient.App.Told
import RtcClient.App.Signalling
import RtcClient.Lib.Ring
import RtcClient.Common.LogFiles
import RtcClient.Common.Logging
import RtcClient.Common.JsonReader
import RtcClient.Common.Strings
import RtcClient.Common.JsonText
import RtcClient.Common.JsonTree
import RtcClient.Common.JsonWriter
import RtcClient.App.Messages
import RtcClient.App.AccessUnits
import RtcClient.Rtp.ParseBounds
import RtcClient.Rtp.PacketLimits
import RtcClient.Lib.Marked
import RtcClient.Common.Escaping
import RtcClient.Common.Serialising
import RtcClient.Common.JsonArrays
import RtcClient.Common.JsonIntegers
import RtcClient.Common.JsonValues
import RtcClient.Common.JsonTokens
import RtcClient.Common.JsonSyntax
import RtcClient.Common.JsonSoundness
import RtcClient.Common.JsonCompleteness
import RtcClient.Common.Spacing
import RtcClient.Common.Rewriting
import RtcClient.Common.JsonGroups
import RtcClient.Common.JsonTermination
import RtcClient.Lib.Logged
import RtcClient.Common.JsonCursor
import RtcClient.App.Leftovers
import RtcClient.App.StreamRequests
import RtcClient.Rtp.Resync
import RtcClient.Rtp.StartCodes
import RtcClient.Rtp.Emission
import RtcClient.Rtp.PacketCount
import RtcClient.Rtp.AudioDelivery
import RtcClient.Lib.Reading
import RtcClient.Lib.Resequencing
import RtcClient.Lib.Framing
import RtcClient.Rtp.Resequencing
import RtcClient.App.FrameLoss
import RtcClient.App.NetworkVideo
import RtcClient.App.NetworkAudio
import RtcClient.Websocket.Frame
import RtcClient.Websocket.Connection
import RtcClient.Websocket.Conversation
import RtcClient.Websocket.Handshake
import RtcClient.Websocket.Reception
import RtcClient.Websocket.Iobuf
import RtcClient.Websocket.HostAddress
import RtcClient.Websocket.Timer
import RtcClient.Websocket.Base64
import RtcClient.Websocket.Address
import RtcClient.Websocket.Client
import RtcClient.Websocket.ClientRuns
import RtcClient.Websocket.Keepalive
import RtcClient.Websocket.ClientWire
import RtcClient.Websocket.ClientSockets
import RtcClient.Websocket.ClientTexts
import RtcClient.Websocket.MessageLengths
import RtcClient.Codec.SearchReads
import RtcClient.Codec.Scanners
import RtcClient.Rtp.Splitting
import RtcClient.Codec.EmulationPrevention
import RtcClient.Codec.Adts
import RtcClient.Common.Utf8
import RtcClient.Lib.Utf8
import RtcClient.Lib.Bits
import RtcClient.Lib.Codes
import RtcClient.Codec.BitReader
import RtcClient.Codec.Sps
import RtcClient.Codec.SpsSyntax
import RtcClient.Codec.SpsDimensions
import RtcClient.Lib.Pieces
import RtcClient.Common.SplitJoin
import RtcClient.Common.Logger
