import RtcClient.App.Command
import RtcClient.App.RoomUser
import RtcClient.Rtp.SessionAudio
import RtcClient.Rtp.SessionVideo
/-!
# The meeting room

`LiveMeetingRoom` is driven by the application's calls, by the server's messages,
which the websocket thread hands to `on_websocket_message`, and by the receive
thread. Every operation takes what the system answers as an argument: the clock,
the uuid drawn, whether the request could be sent, whether a thread, a buffer or a
socket could be made. Callback functions are kept as whether they are set.
-/

namespace RtcClient

open Lib

def ERROR_INVALID_PARAMS : Int := -1
def ERROR_REACH_MAX_API_LIMIT : Int := -2
def ERROR_WEBSOCKET_NOT_INIT : Int := -100
def ERROR_WEBSOCKET_NOT_CONNECTED : Int := -101
def ERROR_CONFERENCE_NOT_JOINED : Int := -200
def ERROR_CONFERENCE_ALREADY_JOINED : Int := -201

/-- The websocket client, as the address it was made for. -/
structure WSClient where
  m_address : Bytes
deriving DecidableEq, Repr

structure OnlineUser where
  userID : Bytes
  userName : Bytes
  userIP : Bytes
  userUUID : Bytes
  videoSSRC : UInt32
  audioSSRC : UInt32
deriving DecidableEq, Repr

/-- What the event callback is given. -/
inductive ConferenceEvent where
  | EVENT_CONFERENCE_CREATED
  | EVENT_CONFERENCE_JOINED
  | EVENT_OTHER_USER_JOINED (user : OnlineUser)
  | EVENT_ONLINE_USERS (users : List OnlineUser)
  | EVENT_CONFERENCE_EXIT (userUUID : Bytes)
  | EVENT_USER_GONE_OUT (userUUID : Bytes)
  | EVENT_CONFERENCE_STOPPED (conferenceId : Bytes)
  | EVENT_CONFERENCE_CLOSING (conferenceId : Bytes)
deriving DecidableEq, Repr

structure LiveMeetingRoom where
  m_initialized : Bool := false
  m_ws_thread_running : Bool := false
  m_websocket_client : Option WSClient := none
  m_other_users_map : List (Bytes × RoomUser) := []
  m_receive_thread_running : Bool := false
  m_rtp_audio_sender : Option RTPSessionAudio := none
  m_rtp_video_sender : Option RTPSessionVideo := none
  m_rtp_send_initialized : Bool := false
  m_my_room_id : Bytes := []
  m_my_ip_addr : Bytes := []
  m_my_user_id : Bytes := []
  m_my_user_name : Bytes := []
  m_my_user_uuid : Bytes := []
  m_video_ssrc : UInt32
  m_audio_ssrc : UInt32
  m_video_push_ip : Bytes := []
  m_video_push_port : UInt16
  m_audio_push_ip : Bytes := []
  m_audio_push_port : UInt16
  m_event_callback_func : Bool := false
  m_signal_callback_func : Bool := false
  m_is_signal_running : Bool := false
  m_prev_signal_time : UInt64 := 0
  m_h264_callback : Bool := false
  m_aac_callback : Bool := false
deriving DecidableEq, Repr

/-- The answers for one session: its buffer, its port, its socket. -/
structure SessionEnv where
  allocated : Bool
  port : Nat
  bound : Bool

/-- The answers while a message is processed: the sending sessions, the receive
thread, and the receivers set up for the `j`-th stream of the `i`-th user. -/
structure MessageEnv where
  audio : SessionEnv
  video : SessionEnv
  thread : Bool
  receivers : Nat → Nat → ReceiverEnv

/-- The answers for a request: the clock in seconds, the new uuid, and whether the text was sent. -/
structure SignalEnv where
  nowSeconds : UInt64
  uuid : Bytes
  sent : Bool

/-- A request operation's state, return value and the request that was sent. -/
structure SignalResult where
  room : LiveMeetingRoom
  code : Int
  request : Option JsonObject := none

namespace LiveMeetingRoom

/-! ## Starting and stopping -/

/-- The constructor. It leaves the ports and SSRCs uninitialised. -/
def new (video_ssrc audio_ssrc : UInt32) (video_push_port audio_push_port : UInt16) : LiveMeetingRoom where
  m_video_ssrc := video_ssrc
  m_audio_ssrc := audio_ssrc
  m_video_push_port := video_push_port
  m_audio_push_port := audio_push_port

def free_context (room : LiveMeetingRoom) : LiveMeetingRoom :=
  { room with
    m_ws_thread_running := false
    m_receive_thread_running := false
    m_websocket_client := none
    m_rtp_audio_sender := none
    m_rtp_video_sender := none
    m_other_users_map := []
    m_rtp_send_initialized := false
    m_initialized := false }

/-- `un_initialize`. -/
def un_init (room : LiveMeetingRoom) : LiveMeetingRoom := room.free_context

def stop_receive (room : LiveMeetingRoom) : LiveMeetingRoom := { room with m_receive_thread_running := false }

def websocket_address (websocket_ip : Bytes) (websocket_port : UInt16) : Bytes :=
  ascii "ws://" ++ websocket_ip ++ ascii ":" ++ common_to_string websocket_port.toNat ++ ascii "/rtc_signal"

/-- `initialize`: `thread` is whether the websocket thread starts, `audio` and `video`
whether there is memory for the sessions. -/
def init (room : LiveMeetingRoom) (websocket_ip : Bytes) (websocket_port : UInt16) (thread audio video : Bool) :
    LiveMeetingRoom × Bool :=
  let room := if room.m_initialized then room.free_context else room
  let room := { room with m_websocket_client := some ⟨websocket_address websocket_ip websocket_port⟩ }
  if !thread then (room.free_context, false)
  else
    let room := { room with m_ws_thread_running := true }
    if !audio then ({ room with m_rtp_audio_sender := none }.free_context, false)
    else
      let room := { room with m_rtp_audio_sender := some {} }
      if !video then ({ room with m_rtp_video_sender := none }.free_context, false)
      else ({ room with m_rtp_video_sender := some {}, m_initialized := true }, true)

/-! ## Media -/

/-- The packets handed to the video transmitter. -/
def send_h264_data (room : LiveMeetingRoom) (data : Buffer) (addr length : Nat) (now_ms : UInt32)
    (sendto : Nat → IPAddrV4 → Int) : LiveMeetingRoom × List Bytes :=
  match room.m_rtp_video_sender with
  | none => (room, [])
  | some sender =>
    let (sender, packets, _) := sender.send_h264_data data addr length now_ms sendto
    ({ room with m_rtp_video_sender := some sender }, packets)

/-- The packets handed to the audio transmitter. -/
def send_aac_data (room : LiveMeetingRoom) (data : Buffer) (length : Nat) (now_ms : UInt32)
    (sendto : IPAddrV4 → Int) : LiveMeetingRoom × List Bytes :=
  match room.m_rtp_audio_sender with
  | none => (room, [])
  | some sender =>
    let (sender, packets, _) := sender.send_aac_data data length now_ms sendto
    ({ room with m_rtp_audio_sender := some sender }, packets)

/-- One round of `receive_loop`. `arrived` gives each user's next audio and video datagram. -/
def receive_round (room : LiveMeetingRoom) (arrived : Bytes → Buffer × Buffer) : LiveMeetingRoom × List Delivery :=
  if room.m_receive_thread_running then
    let received := room.m_other_users_map.map (fun e =>
      let (user, audio) := e.2.receive_audio (arrived e.1).1
      let (user, video) := user.receive_video (arrived e.1).2
      (e.1, user, audio.toList ++ video.toList))
    ({ room with m_other_users_map := received.map (fun r => (r.1, r.2.1)) }, received.flatMap (·.2.2))
  else (room, [])

/-! ## Requests -/

def joined (room : LiveMeetingRoom) : Bool := room.m_my_room_id.length != 0 && room.m_my_user_uuid.length != 0

/-- The throttle: `none` while an earlier request is less than six seconds old. -/
def throttle (room : LiveMeetingRoom) (nowSeconds : UInt64) : Option LiveMeetingRoom :=
  if room.m_is_signal_running && nowSeconds - room.m_prev_signal_time < 6 then none
  else some { room with m_is_signal_running := true, m_prev_signal_time := nowSeconds }

def send_request (room : LiveMeetingRoom) (env : SignalEnv) (cmd : Int) (params : JsonObject) : SignalResult :=
  if env.sent then ⟨room, 0, some (app_request_json cmd env.uuid params)⟩
  else ⟨{ room with m_is_signal_running := false }, ERROR_WEBSOCKET_NOT_CONNECTED, none⟩

/-- A request to enter a conference, refused unless both identifiers are empty. -/
def signal_enter (room : LiveMeetingRoom) (env : SignalEnv) (cmd : Int) (params : JsonObject)
    (update : LiveMeetingRoom → LiveMeetingRoom) : SignalResult :=
  if room.m_websocket_client.isNone then ⟨room, ERROR_WEBSOCKET_NOT_INIT, none⟩
  else if room.m_my_room_id.length != 0 || room.m_my_user_uuid.length != 0 then
    ⟨room, ERROR_CONFERENCE_ALREADY_JOINED, none⟩
  else
    match room.throttle env.nowSeconds with
    | none => ⟨room, ERROR_REACH_MAX_API_LIMIT, none⟩
    | some room => (update room).send_request env cmd params

def signal_create_conference (room : LiveMeetingRoom) (myUserId myUserName : Bytes) (env : SignalEnv) : SignalResult :=
  room.signal_enter env TYPE_CONFERENCE_CREATE
    (params_json [(ascii "user_id", myUserId), (ascii "user_name", myUserName)]) id

def signal_join_conference (room : LiveMeetingRoom) (conferenceId myUserId myUserName : Bytes) (env : SignalEnv) :
    SignalResult :=
  room.signal_enter env TYPE_CONFERENCE_JOIN
    (params_json [(ascii "conference_id", conferenceId), (ascii "user_id", myUserId), (ascii "user_name", myUserName)])
    (fun room => { room with m_my_user_id := myUserId, m_my_user_name := myUserName })

/-- The identifiers of a request from inside a conference. -/
def my_params (room : LiveMeetingRoom) : JsonObject :=
  params_json [(ascii "conference_id", room.m_my_room_id), (ascii "user_uuid", room.m_my_user_uuid)]

/-- A request from inside a conference. -/
def signal_inside (room : LiveMeetingRoom) (env : SignalEnv) (cmd : Int) : SignalResult :=
  if room.m_websocket_client.isNone then ⟨room, ERROR_WEBSOCKET_NOT_INIT, none⟩
  else if !room.joined then ⟨room, ERROR_CONFERENCE_NOT_JOINED, none⟩
  else
    match room.throttle env.nowSeconds with
    | none => ⟨room, ERROR_REACH_MAX_API_LIMIT, none⟩
    | some room => room.send_request env cmd room.my_params

def signal_exit_conference (room : LiveMeetingRoom) (env : SignalEnv) : SignalResult :=
  room.signal_inside env TYPE_CONFERENCE_EXIT

def signal_stop_conference (room : LiveMeetingRoom) (env : SignalEnv) : SignalResult :=
  room.signal_inside env TYPE_CONFERENCE_STOP

def signal_online_users (room : LiveMeetingRoom) (env : SignalEnv) : SignalResult :=
  room.signal_inside env TYPE_CONFERENCE_ONLINE_USERS

/-- A `std::map<std::string, std::set<std::string>>`: the SSRCs asked for, by user. -/
abbrev Streams := List (Bytes × List Bytes)

def ssrcs_json (ssrcSet : List Bytes) : JsonObject :=
  (ssrcSet.foldl (fun (acc : JsonObject × Int) ssrc =>
    (acc.1.setIndex acc.2 (.ofObject (JsonObject.set {} (ascii "ssrc") (.T_STRING ssrc))), acc.2 + 1)) ({}, 0)).1

def streams_json (streams : Streams) : JsonObject :=
  (streams.foldl (fun (acc : JsonObject × Int) e =>
    if e.2.isEmpty then acc
    else
      let streamJson := JsonObject.set {} (ascii "user_uuid") (.T_STRING e.1)
      let streamJson := streamJson.set (ascii "ssrcs") (.ofObject (ssrcs_json e.2))
      (acc.1.setIndex acc.2 (.ofObject streamJson), acc.2 + 1)) ({}, 0)).1

/-- A request about other users' streams. The own entry is erased from the caller's map. -/
def signal_streams (room : LiveMeetingRoom) (env : SignalEnv) (cmd : Int) (streams : Streams) :
    SignalResult × Streams :=
  if room.m_websocket_client.isNone then (⟨room, ERROR_WEBSOCKET_NOT_INIT, none⟩, streams)
  else if !room.joined then (⟨room, ERROR_CONFERENCE_NOT_JOINED, none⟩, streams)
  else
    let streams := Assoc.erase streams room.m_my_user_uuid
    if streams.length = 0 then (⟨room, ERROR_INVALID_PARAMS, none⟩, streams)
    else
      match room.throttle env.nowSeconds with
      | none => (⟨room, ERROR_REACH_MAX_API_LIMIT, none⟩, streams)
      | some room =>
        (room.send_request env cmd (room.my_params.set (ascii "streams") (.ofObject (streams_json streams))), streams)

def signal_start_pull_stream (room : LiveMeetingRoom) (streams : Streams) (env : SignalEnv) : SignalResult × Streams :=
  room.signal_streams env TYPE_CONFERENCE_PULL_STREAM streams

def signal_stop_pull_stream (room : LiveMeetingRoom) (streams : Streams) (env : SignalEnv) : SignalResult × Streams :=
  room.signal_streams env TYPE_CONFERENCE_STOP_PULLING streams

/-- The heartbeat is not throttled. -/
def signal_heartbeat (room : LiveMeetingRoom) (myUserUUID conferenceID : Bytes) (sent : Bool) : SignalResult :=
  if room.m_websocket_client.isNone then ⟨room, ERROR_WEBSOCKET_NOT_INIT, none⟩
  else if sent then
    ⟨room, 0, some (app_request_json TYPE_CONFERENCE_HEARTBEAT (ascii "0")
      (params_json [(ascii "conference_id", conferenceID), (ascii "user_uuid", myUserUUID)]))⟩
  else ⟨room, ERROR_WEBSOCKET_NOT_CONNECTED, none⟩

/-! ## The sending sessions -/

def add_sender_destination (room : LiveMeetingRoom) (majorVideoIP : Bytes) (majorVideoPort : UInt16)
    (majorVideoSequenceStart : UInt16) (majorVideoTimestampStart majorVideoSSRC : UInt32) (audioIP : Bytes)
    (audioPort : UInt16) (audioSequenceStart : UInt16) (audioTimestampStart audioSSRC : UInt32) (env : MessageEnv) :
    LiveMeetingRoom :=
  match room.m_rtp_audio_sender, room.m_rtp_video_sender with
  | some audio, some video =>
    let add (room : LiveMeetingRoom) (audio : RTPSessionAudio) (video : RTPSessionVideo) : LiveMeetingRoom :=
      { room with
        m_rtp_audio_sender := some (audio.add_destination audioIP audioPort.toNat).1
        m_rtp_video_sender := some (video.add_destination majorVideoIP majorVideoPort.toNat).1 }
    if room.m_rtp_send_initialized then add room audio video
    else
      match audio.init audioSequenceStart audioTimestampStart audioSSRC env.audio.allocated env.audio.port
          env.audio.bound with
      | (audio, false) => { room with m_rtp_audio_sender := some audio }
      | (audio, true) =>
        match video.init majorVideoSequenceStart majorVideoTimestampStart majorVideoSSRC env.video.allocated
            env.video.port env.video.bound with
        | (video, false) => { room with m_rtp_audio_sender := some audio, m_rtp_video_sender := some video }
        | (video, true) => add { room with m_rtp_send_initialized := true } audio video
  | _, _ => room

def remove_sender (room : LiveMeetingRoom) : LiveMeetingRoom :=
  { room with m_rtp_send_initialized := false, m_rtp_audio_sender := none, m_rtp_video_sender := none }

/-! ## Messages -/

/-- A callback is made only if it is set. -/
def notify (room : LiveMeetingRoom) (event : ConferenceEvent) : Option ConferenceEvent :=
  if room.m_event_callback_func then some event else none

def readSSRC (params : JsonObject) (key : Bytes) : UInt32 := UInt32.ofInt (string_to_long (params.get key).as_string)

def readPort (params : JsonObject) (key : Bytes) : UInt16 := UInt16.ofInt (string_to_int (params.get key).as_string)

/-- The members every message about a user has. -/
def read_online_user (params : JsonObject) : OnlineUser where
  userID := (params.get (ascii "user_id")).as_string
  userName := (params.get (ascii "user_name")).as_string
  userIP := (params.get (ascii "user_ip")).as_string
  userUUID := (params.get (ascii "user_uuid")).as_string
  videoSSRC := readSSRC params (ascii "video_ssrc")
  audioSSRC := readSSRC params (ascii "audio_ssrc")

/-- What `on_ws_conference_create` and the own `on_ws_conference_join` do: take over the
conference's values, point the senders to it and start to receive. -/
def enter_conference (room : LiveMeetingRoom) (params : JsonObject) (env : MessageEnv) : LiveMeetingRoom :=
  let user := read_online_user params
  let room := { room with
    m_my_room_id := (params.get (ascii "conference_id")).as_string
    m_my_ip_addr := user.userIP
    m_my_user_id := user.userID
    m_my_user_name := user.userName
    m_my_user_uuid := user.userUUID
    m_video_ssrc := user.videoSSRC
    m_audio_ssrc := user.audioSSRC
    m_video_push_ip := (params.get (ascii "push_video_ip")).as_string
    m_video_push_port := readPort params (ascii "push_video_port")
    m_audio_push_ip := (params.get (ascii "push_audio_ip")).as_string
    m_audio_push_port := readPort params (ascii "push_audio_port") }
  let room := room.add_sender_destination room.m_video_push_ip room.m_video_push_port 0 0 room.m_video_ssrc
    room.m_audio_push_ip room.m_audio_push_port 0 0 room.m_audio_ssrc env
  if room.m_receive_thread_running then room else { room with m_receive_thread_running := env.thread }

def on_ws_conference_create (room : LiveMeetingRoom) (params : JsonObject) (env : MessageEnv) :
    LiveMeetingRoom × Option ConferenceEvent :=
  let room := { room.enter_conference params env with m_is_signal_running := false }
  (room, room.notify .EVENT_CONFERENCE_CREATED)

/-- The message is about the own user. -/
def is_mine (room : LiveMeetingRoom) (params : JsonObject) : Bool :=
  (read_online_user params).userUUID == room.m_my_user_uuid || (read_online_user params).userID == room.m_my_user_id

def on_ws_conference_join (room : LiveMeetingRoom) (params : JsonObject) (env : MessageEnv) :
    LiveMeetingRoom × Option ConferenceEvent :=
  let room := if room.is_mine params then room.enter_conference params env else room
  let room := { room with m_is_signal_running := false }
  (room, room.notify .EVENT_CONFERENCE_JOINED)

/-- Put a user into the map, unless one is there under the same uuid. -/
def add_other_user (room : LiveMeetingRoom) (user : OnlineUser) : LiveMeetingRoom :=
  match Assoc.find room.m_other_users_map user.userUUID with
  | some _ => room
  | none =>
    let roomUser : RoomUser := {
      m_user_id := user.userID
      m_user_name := user.userName
      m_user_ip_addr := user.userIP
      m_user_uuid := user.userUUID
      m_video_ssrc := user.videoSSRC
      m_audio_ssrc := user.audioSSRC
      m_aac_callback := room.m_aac_callback
      m_h264_callback := room.m_h264_callback
      m_pinhole_uuid := room.m_my_user_uuid }
    { room with m_other_users_map := Assoc.insert user.userUUID roomUser room.m_other_users_map }

def on_ws_conference_new_joined (room : LiveMeetingRoom) (params : JsonObject) :
    LiveMeetingRoom × Option ConferenceEvent :=
  let user := read_online_user params
  let room := room.add_other_user user
  (room, room.notify (.EVENT_OTHER_USER_JOINED user))

/-- The streams of one user in a pull-stream response. -/
def pull_stream_user (room : LiveMeetingRoom) (streamJson : JsonObject) (env : Nat → ReceiverEnv) : LiveMeetingRoom :=
  let streamUserUUID := (streamJson.get (ascii "user_uuid")).as_string
  match Assoc.find room.m_other_users_map streamUserUUID with
  | none => room
  | some roomUser =>
    let ssrcsJson := (streamJson.get (ascii "ssrcs")).as_object
    let roomUser := (List.range ssrcsJson.array_size.toNat).foldl (fun (roomUser : RoomUser) (j : Nat) =>
      let ssrcJson := (ssrcsJson.getIndex j).as_object
      (roomUser.init (c_str (ssrcJson.get (ascii "ip")).as_string) (readPort ssrcJson (ascii "port")).toNat
        (readSSRC ssrcJson (ascii "ssrc")) (env j)).1) roomUser
    { room with m_other_users_map := Assoc.insert streamUserUUID roomUser room.m_other_users_map }

def on_ws_conference_pull_stream (room : LiveMeetingRoom) (params : JsonObject) (env : MessageEnv) : LiveMeetingRoom :=
  let streamsJson := (params.get (ascii "streams")).as_object
  let room := (List.range streamsJson.array_size.toNat).foldl (fun (room : LiveMeetingRoom) (i : Nat) =>
    room.pull_stream_user (streamsJson.getIndex i).as_object (env.receivers i)) room
  { room with m_is_signal_running := false }

def on_ws_conference_stop_pulling (room : LiveMeetingRoom) : LiveMeetingRoom :=
  { room with m_is_signal_running := false }

/-- What the handlers of EXIT, STOP and CLOSING do. -/
def leave_conference (room : LiveMeetingRoom) : LiveMeetingRoom :=
  { room.stop_receive.remove_sender with
    m_other_users_map := []
    m_my_room_id := []
    m_my_ip_addr := []
    m_my_user_id := []
    m_my_user_name := []
    m_my_user_uuid := []
    m_video_push_ip := []
    m_audio_push_ip := []
    m_video_push_port := 0
    m_audio_push_port := 0
    m_video_ssrc := 0
    m_audio_ssrc := 0
    m_is_signal_running := false }

def on_ws_conference_exit (room : LiveMeetingRoom) (params : JsonObject) : LiveMeetingRoom × Option ConferenceEvent :=
  let room := room.leave_conference
  (room, room.notify (.EVENT_CONFERENCE_EXIT (params.get (ascii "user_uuid")).as_string))

def on_ws_conference_stop (room : LiveMeetingRoom) (params : JsonObject) : LiveMeetingRoom × Option ConferenceEvent :=
  let room := room.leave_conference
  (room, room.notify (.EVENT_CONFERENCE_STOPPED (params.get (ascii "conference_id")).as_string))

def on_ws_conference_closing (room : LiveMeetingRoom) (params : JsonObject) :
    LiveMeetingRoom × Option ConferenceEvent :=
  let room := room.leave_conference
  (room, room.notify (.EVENT_CONFERENCE_CLOSING (params.get (ascii "conference_id")).as_string))

def on_ws_conference_user_gone (room : LiveMeetingRoom) (params : JsonObject) :
    LiveMeetingRoom × Option ConferenceEvent :=
  let userUUID := (params.get (ascii "user_uuid")).as_string
  let room := { room with m_other_users_map := Assoc.erase room.m_other_users_map userUUID }
  (room, room.notify (.EVENT_USER_GONE_OUT userUUID))

def on_ws_conference_online_users (room : LiveMeetingRoom) (params : JsonObject) :
    LiveMeetingRoom × Option ConferenceEvent :=
  let room := { room with m_is_signal_running := false }
  let onlineUsersJson := (params.get (ascii "online_users")).as_object
  let users := (List.range onlineUsersJson.array_size.toNat).map (fun (i : Nat) =>
    read_online_user (onlineUsersJson.getIndex i).as_object)
  let room := users.foldl add_other_user room
  (room, room.notify (.EVENT_ONLINE_USERS users))

def on_ws_conference_heartbeat (room : LiveMeetingRoom) : LiveMeetingRoom := room

/-- `cmdtype` and params of a message with status code 200. -/
def read_message (json : JsonObject) : Option (Int × JsonObject) :=
  if (json.get (ascii "code")).as_string = ascii "200" then
    some (string_to_int (json.get (ascii "opcode")).as_string, (json.get (ascii "params")).as_object)
  else none

def on_ws_message (room : LiveMeetingRoom) (opcode : Int) (params : JsonObject) (env : MessageEnv) :
    LiveMeetingRoom × Option ConferenceEvent :=
  if opcode = TYPE_CONFERENCE_CREATE then room.on_ws_conference_create params env
  else if opcode = TYPE_CONFERENCE_JOIN then room.on_ws_conference_join params env
  else if opcode = TYPE_CONFERENCE_NEW_JOINED then room.on_ws_conference_new_joined params
  else if opcode = TYPE_CONFERENCE_PULL_STREAM then (room.on_ws_conference_pull_stream params env, none)
  else if opcode = TYPE_CONFERENCE_STOP_PULLING then (room.on_ws_conference_stop_pulling, none)
  else if opcode = TYPE_CONFERENCE_EXIT then room.on_ws_conference_exit params
  else if opcode = TYPE_CONFERENCE_USER_GONE then room.on_ws_conference_user_gone params
  else if opcode = TYPE_CONFERENCE_STOP then room.on_ws_conference_stop params
  else if opcode = TYPE_CONFERENCE_ONLINE_USERS then room.on_ws_conference_online_users params
  else if opcode = TYPE_CONFERENCE_CLOSING then
    -- the case has no `return` and goes on into that of the heartbeat
    let (room, event) := room.on_ws_conference_closing params
    (room.on_ws_conference_heartbeat, event)
  else if opcode = TYPE_CONFERENCE_HEARTBEAT then (room.on_ws_conference_heartbeat, none)
  else (room, none)

/-- `json` is what `read_from_string` makes of the message, `none` if it rejects it. -/
def on_websocket_message (room : LiveMeetingRoom) (json : Option JsonObject) (env : MessageEnv) :
    LiveMeetingRoom × Option ConferenceEvent :=
  match json.bind read_message with
  | none => (room, none)
  | some (opcode, params) => room.on_ws_message opcode params env

/-- The event handed to the signal callback. -/
def on_websocket_event (room : LiveMeetingRoom) (event : Int) : Option Int :=
  if room.m_signal_callback_func then some event else none

/-! ## Runs -/

/-- A call of the application, a message of the server or a round of the receive thread. -/
inductive Call where
  | init (websocket_ip : Bytes) (websocket_port : UInt16) (thread audio video : Bool)
  | un_init
  | set_event_callback_func (func : Bool)
  | set_signal_callback_func (func : Bool)
  | set_h264_receive_callback (func : Bool)
  | set_aac_receive_callback (func : Bool)
  | send_h264_data (data : Buffer) (addr length : Nat) (now_ms : UInt32) (sendto : Nat → IPAddrV4 → Int)
  | send_aac_data (data : Buffer) (length : Nat) (now_ms : UInt32) (sendto : IPAddrV4 → Int)
  | signal_create_conference (myUserId myUserName : Bytes) (env : SignalEnv)
  | signal_join_conference (conferenceId myUserId myUserName : Bytes) (env : SignalEnv)
  | signal_start_pull_stream (streams : Streams) (env : SignalEnv)
  | signal_stop_pull_stream (streams : Streams) (env : SignalEnv)
  | signal_exit_conference (env : SignalEnv)
  | signal_stop_conference (env : SignalEnv)
  | signal_online_users (env : SignalEnv)
  | signal_heartbeat (myUserUUID conferenceID : Bytes) (sent : Bool)
  | message (json : Option JsonObject) (env : MessageEnv)
  | event (event : Int)
  | receive (arrived : Bytes → Buffer × Buffer)

inductive Output where
  | none
  | result (ok : Bool)
  | signal (code : Int) (request : Option JsonObject)
  | packets (sent : List Bytes)
  | conference (event : Option ConferenceEvent)
  | websocket (event : Option Int)
  | deliveries (received : List Delivery)

/-- Messages and websocket events come from the client, so there are none without one. -/
def step (room : LiveMeetingRoom) : Call → LiveMeetingRoom × Output
  | .init websocket_ip websocket_port thread audio video =>
    let r := room.init websocket_ip websocket_port thread audio video
    (r.1, .result r.2)
  | .un_init => (room.un_init, .none)
  | .set_event_callback_func func => ({ room with m_event_callback_func := func }, .none)
  | .set_signal_callback_func func => ({ room with m_signal_callback_func := func }, .none)
  | .set_h264_receive_callback func => ({ room with m_h264_callback := func }, .none)
  | .set_aac_receive_callback func => ({ room with m_aac_callback := func }, .none)
  | .send_h264_data data addr length now_ms sendto =>
    let r := room.send_h264_data data addr length now_ms sendto
    (r.1, .packets r.2)
  | .send_aac_data data length now_ms sendto =>
    let r := room.send_aac_data data length now_ms sendto
    (r.1, .packets r.2)
  | .signal_create_conference myUserId myUserName env =>
    let r := room.signal_create_conference myUserId myUserName env
    (r.room, .signal r.code r.request)
  | .signal_join_conference conferenceId myUserId myUserName env =>
    let r := room.signal_join_conference conferenceId myUserId myUserName env
    (r.room, .signal r.code r.request)
  | .signal_start_pull_stream streams env =>
    let r := (room.signal_start_pull_stream streams env).1
    (r.room, .signal r.code r.request)
  | .signal_stop_pull_stream streams env =>
    let r := (room.signal_stop_pull_stream streams env).1
    (r.room, .signal r.code r.request)
  | .signal_exit_conference env =>
    let r := room.signal_exit_conference env
    (r.room, .signal r.code r.request)
  | .signal_stop_conference env =>
    let r := room.signal_stop_conference env
    (r.room, .signal r.code r.request)
  | .signal_online_users env =>
    let r := room.signal_online_users env
    (r.room, .signal r.code r.request)
  | .signal_heartbeat myUserUUID conferenceID sent =>
    let r := room.signal_heartbeat myUserUUID conferenceID sent
    (r.room, .signal r.code r.request)
  | .message json env =>
    if room.m_websocket_client.isSome then
      let r := room.on_websocket_message json env
      (r.1, .conference r.2)
    else (room, .none)
  | .event event =>
    if room.m_websocket_client.isSome then (room, .websocket (room.on_websocket_event event)) else (room, .none)
  | .receive arrived =>
    let r := room.receive_round arrived
    (r.1, .deliveries r.2)

end LiveMeetingRoom

end RtcClient
