import RtcClient.App.MeetingRoom
/-!
# The senders of a room

What matters about the two sending sessions: whether they exist, whether they are
initialised, for which SSRC, and where they send. `Senders` is a machine over just
that, with five actions. `senders_step` shows that every call of the room is one of
them, so that results about the senders need not look at the room's code again.
-/

namespace RtcClient

open Lib

/-! ## Sessions -/

/-- A sending session: the SSRC its builder writes and its transmitter's destinations. -/
structure Session where
  initialized : Bool := false
  ssrc : Option UInt32 := none
  destinations : Option (List IPAddrV4) := none
deriving DecidableEq, Repr

namespace Session

/-- `ok` is whether its buffer and its socket can be made. -/
def start (s : Session) (ssrc : UInt32) (ok : Bool) : Session × Bool :=
  if s.initialized then (s, true) else if ok then (⟨true, some ssrc, some []⟩, true) else ({}, false)

def add (s : Session) (addr : IPAddrV4) : Session :=
  if s.initialized then { s with destinations := s.destinations.map (· ++ [addr]) } else s

end Session

/-- The buffer and the socket of a session can be made. -/
def SessionEnv.ok (env : SessionEnv) : Bool := env.allocated && env.bound

def RTPSessionAudio.session (s : RTPSessionAudio) : Session :=
  ⟨s.m_initialize, s.m_aac_rtp_builder.map (·.m_ssrc), s.m_transmitter.map (·.m_destinations)⟩

def RTPSessionVideo.session (s : RTPSessionVideo) : Session :=
  ⟨s.m_initialize, s.m_h264_rtp_builder.map (·.m_ssrc), s.m_transmitter.map (·.m_destinations)⟩

namespace RTPSessionAudio

theorem init_session (s : RTPSessionAudio) (seq : UInt16) (ts ssrc : UInt32) (env : SessionEnv) :
    ((s.init seq ts ssrc env.allocated env.port env.bound).1.session,
      (s.init seq ts ssrc env.allocated env.port env.bound).2) = s.session.start ssrc env.ok := by
  obtain ⟨allocated, port, bound⟩ := env
  unfold init Session.start
  by_cases h : s.m_initialize
  · simp [h, session]
  · cases allocated <;> cases bound <;>
      simp [h, session, SessionEnv.ok, RTPAACPacketBuilder.init, RTPTransmitterV4.init, RTPAACPacketBuilder.set_ssrc]

theorem add_destination_session (s : RTPSessionAudio) (ip : Bytes) (port : Nat) :
    (s.add_destination ip port).1.session = s.session.add (IPAddrV4.new ip port) := by
  unfold add_destination Session.add
  by_cases h : s.m_initialize
  · simp [h, session, RTPTransmitterV4.add_destination, Function.comp_def]
  · simp [h, session]

theorem send_aac_data_session (s : RTPSessionAudio) (data : Buffer) (length : Nat) (now_ms : UInt32)
    (sendto : IPAddrV4 → Int) : (s.send_aac_data data length now_ms sendto).1.session = s.session := by
  unfold send_aac_data
  split
  · rename_i builder transmitter hi hb ht
    unfold RTPAACPacketBuilder.send_data
    split_ifs <;> simp [session, hb]
  · rfl

end RTPSessionAudio

namespace RTPH264PacketBuilder

theorem fua_loop_ssrc (b : RTPH264PacketBuilder) (fnri type : UInt8) (data : Bytes) (leftLen : Nat) (isStart : Bool)
    (vec : List Bytes) : (b.fua_loop fnri type data leftLen isStart vec).1.m_ssrc = b.m_ssrc := by
  fun_induction fua_loop b fnri type data leftLen isStart vec with
  | case1 | case2 | case3 | case4 => rfl
  | case5 b leftLen isStart vec _ _ _ _ _ _ _ _ _ _ _ _ ih => exact ih

theorem stapa_loop_ssrc (ns : List Bytes) : ∀ (b : RTPH264PacketBuilder) (packet : Bytes) (isBegin : Bool),
    (b.stapa_loop packet isBegin ns).1.m_ssrc = b.m_ssrc := by
  induction ns with
  | nil => intro b packet isBegin; rfl
  | cons n ns ih =>
    intro b packet isBegin
    rw [stapa_loop]
    split
    · exact ih _ _ _
    · rfl

theorem build_packet_ssrc (b : RTPH264PacketBuilder) (ns vec : List Bytes) :
    (b.build_packet ns vec).1.m_ssrc = b.m_ssrc := by
  unfold build_packet
  split
  · rfl
  · dsimp only
    split
    · split <;> rfl
    · have h := stapa_loop_ssrc ns (b.put b.header) b.header true
      split <;> rename_i heq <;> rw [heq] at h <;> exact h

theorem flush_ssrc (b : RTPH264PacketBuilder) (tmp vec : List Bytes) : (b.flush tmp vec).1.m_ssrc = b.m_ssrc := by
  unfold flush
  split
  · exact build_packet_ssrc b tmp vec
  · rfl

theorem receive_loop_ssrc (ns : List Bytes) : ∀ (b : RTPH264PacketBuilder) (vec tmp : List Bytes) (totalLen : Nat),
    (b.receive_loop vec tmp totalLen ns).1.m_ssrc = b.m_ssrc := by
  induction ns with
  | nil => intro b vec tmp totalLen; exact flush_ssrc b tmp vec
  | cons n ns ih =>
    intro b vec tmp totalLen
    have hf := flush_ssrc b tmp vec
    rw [receive_loop]
    split
    · generalize b.flush tmp vec = r at hf
      obtain ⟨b1, vec1, ok⟩ := r
      cases ok with
      | false => exact hf
      | true =>
        have hfua : (b1.build_fua_packet n vec1).1.m_ssrc = b1.m_ssrc := fua_loop_ssrc b1 _ _ _ _ _ _
        dsimp only
        generalize b1.build_fua_packet n vec1 = r at hfua
        obtain ⟨b2, vec2, ok⟩ := r
        cases ok with
        | false => exact hfua.trans hf
        | true => exact (ih _ _ _ _).trans (hfua.trans hf)
    · split
      · generalize b.flush tmp vec = r at hf
        obtain ⟨b1, vec1, ok⟩ := r
        cases ok with
        | false => exact hf
        | true => exact (ih _ _ _ _).trans hf
      · exact ih _ _ _ _

theorem receive_rtp_packets_ssrc (b : RTPH264PacketBuilder) (vec : List Bytes) :
    (b.receive_rtp_packets vec).1.m_ssrc = b.m_ssrc := receive_loop_ssrc _ _ _ _ _

end RTPH264PacketBuilder

namespace RTPSessionVideo

theorem init_session (s : RTPSessionVideo) (seq : UInt16) (ts ssrc : UInt32) (env : SessionEnv) :
    ((s.init seq ts ssrc env.allocated env.port env.bound).1.session,
      (s.init seq ts ssrc env.allocated env.port env.bound).2) = s.session.start ssrc env.ok := by
  obtain ⟨allocated, port, bound⟩ := env
  unfold init Session.start
  by_cases h : s.m_initialize
  · simp [h, session]
  · cases allocated <;> cases bound <;>
      simp [h, session, SessionEnv.ok, RTPH264PacketBuilder.init, RTPTransmitterV4.init, RTPH264PacketBuilder.set_ssrc]

theorem add_destination_session (s : RTPSessionVideo) (ip : Bytes) (port : Nat) :
    (s.add_destination ip port).1.session = s.session.add (IPAddrV4.new ip port) := by
  unfold add_destination Session.add
  by_cases h : s.m_initialize
  · simp [h, session, RTPTransmitterV4.add_destination, Function.comp_def]
  · simp [h, session]

theorem send_h264_data_session (s : RTPSessionVideo) (data : Buffer) (addr length : Nat) (now_ms : UInt32)
    (sendto : Nat → IPAddrV4 → Int) : (s.send_h264_data data addr length now_ms sendto).1.session = s.session := by
  unfold send_h264_data
  split
  · rename_i builder transmitter hi hb ht
    have hr := (builder.send_data data addr length).1.receive_rtp_packets_ssrc []
    simp only [RTPH264PacketBuilder.send_data] at hr ⊢
    split <;> rename_i heq <;> rw [heq] at hr <;> simpa [session, hb] using hr
  · rfl

end RTPSessionVideo

/-! ## The machine -/

/-- Where one medium of the conference goes, and under which SSRC. -/
structure Target where
  addr : IPAddrV4
  ssrc : UInt32
deriving DecidableEq, Repr

structure Senders where
  client : Bool
  initialized : Bool
  audio : Option Session
  video : Option Session
  send_initialized : Bool
  audioTarget : Target
  videoTarget : Target
deriving DecidableEq, Repr

namespace Senders

inductive Action where
  /-- Nothing about the senders. -/
  | skip
  /-- The room enters a conference. The flags say whether the sessions can be made. -/
  | enter (audioTarget videoTarget : Target) (audioOk videoOk : Bool)
  | leave (audioTarget videoTarget : Target)
  /-- `initialize`, and whether it succeeds. -/
  | restart (ok : Bool)
  | free
deriving DecidableEq, Repr

def release (s : Senders) : Senders :=
  { s with client := false, initialized := false, audio := none, video := none, send_initialized := false }

/-- Point both sessions to the room's targets, initialising them the first time. -/
def connect (s : Senders) (audioOk videoOk : Bool) : Senders :=
  match s.audio, s.video with
  | some audio, some video =>
    if s.send_initialized then
      { s with audio := some (audio.add s.audioTarget.addr), video := some (video.add s.videoTarget.addr) }
    else
      match audio.start s.audioTarget.ssrc audioOk with
      | (audio, false) => { s with audio := some audio }
      | (audio, true) =>
        match video.start s.videoTarget.ssrc videoOk with
        | (video, false) => { s with audio := some audio, video := some video }
        | (video, true) =>
          { s with
            send_initialized := true
            audio := some (audio.add s.audioTarget.addr)
            video := some (video.add s.videoTarget.addr) }
  | _, _ => s

def act (s : Senders) : Action → Senders
  | .skip => s
  | .enter audioTarget videoTarget audioOk videoOk =>
    { s with audioTarget := audioTarget, videoTarget := videoTarget }.connect audioOk videoOk
  | .leave audioTarget videoTarget =>
    { s with
      audio := none
      video := none
      send_initialized := false
      audioTarget := audioTarget
      videoTarget := videoTarget }
  | .restart ok =>
    let s := if s.initialized then s.release else s
    if ok then { s with client := true, initialized := true, audio := some {}, video := some {} } else s.release
  | .free => s.release

end Senders

namespace LiveMeetingRoom

/-! ## The room is such a machine -/

def audioTarget (room : LiveMeetingRoom) : Target :=
  ⟨IPAddrV4.new room.m_audio_push_ip room.m_audio_push_port.toNat, room.m_audio_ssrc⟩

def videoTarget (room : LiveMeetingRoom) : Target :=
  ⟨IPAddrV4.new room.m_video_push_ip room.m_video_push_port.toNat, room.m_video_ssrc⟩

def senders (room : LiveMeetingRoom) : Senders where
  client := room.m_websocket_client.isSome
  initialized := room.m_initialized
  audio := room.m_rtp_audio_sender.map (·.session)
  video := room.m_rtp_video_sender.map (·.session)
  send_initialized := room.m_rtp_send_initialized
  audioTarget := room.audioTarget
  videoTarget := room.videoTarget

/-- The targets a create or join response names. -/
def readAudioTarget (params : JsonObject) : Target :=
  ⟨IPAddrV4.new (params.get (ascii "push_audio_ip")).as_string (readPort params (ascii "push_audio_port")).toNat,
    readSSRC params (ascii "audio_ssrc")⟩

def readVideoTarget (params : JsonObject) : Target :=
  ⟨IPAddrV4.new (params.get (ascii "push_video_ip")).as_string (readPort params (ascii "push_video_port")).toNat,
    readSSRC params (ascii "video_ssrc")⟩

/-- A response the room enters a conference with: CREATE, or JOIN for the own user. -/
def enters (room : LiveMeetingRoom) (opcode : Int) (params : JsonObject) : Bool :=
  opcode = TYPE_CONFERENCE_CREATE || (opcode = TYPE_CONFERENCE_JOIN && room.is_mine params)

/-- EXIT, STOP or CLOSING. -/
def leaves (opcode : Int) : Bool :=
  opcode = TYPE_CONFERENCE_EXIT || opcode = TYPE_CONFERENCE_STOP || opcode = TYPE_CONFERENCE_CLOSING

/-- The target left behind by the handlers of EXIT, STOP and CLOSING. -/
def noTarget : Target := ⟨IPAddrV4.new [] 0, 0⟩

/-- The message processed, if the call is one and it has status code 200. -/
def processed (room : LiveMeetingRoom) : Call → Option (Int × JsonObject × MessageEnv)
  | .message json env =>
    if room.m_websocket_client.isSome then (json.bind read_message).map (fun m => (m.1, m.2, env)) else none
  | _ => none

/-- What a message with status code 200 does to the senders. -/
def messageAction (room : LiveMeetingRoom) (opcode : Int) (params : JsonObject) (env : MessageEnv) : Senders.Action :=
  if room.enters opcode params then
    .enter (readAudioTarget params) (readVideoTarget params) env.audio.ok env.video.ok
  else if leaves opcode then .leave noTarget noTarget
  else .skip

def action (room : LiveMeetingRoom) (c : Call) : Senders.Action :=
  match room.processed c with
  | some (opcode, params, env) => room.messageAction opcode params env
  | none =>
    match c with
    | .init _ _ thread audio video => .restart (thread && audio && video)
    | .un_init => .free
    | _ => .skip

/-! ### What a message does -/

theorem step_processed (room : LiveMeetingRoom) {c : Call} {opcode : Int} {params : JsonObject} {env : MessageEnv}
    (hp : room.processed c = some (opcode, params, env)) :
    (room.step c).1 = (room.on_ws_message opcode params env).1 := by
  cases c with
  | message json env' =>
    simp only [processed] at hp
    simp only [step]
    split at hp
    · rename_i hc
      obtain ⟨m, hm, he⟩ := Option.map_eq_some_iff.1 hp
      cases he
      simp [hc, on_websocket_message, hm]
    · cases hp
  | _ => cases hp

/-- Another message is ignored. -/
theorem message_unprocessed {room : LiveMeetingRoom} {json : Option JsonObject} {env : MessageEnv}
    (hp : room.processed (.message json env) = none) : (room.step (.message json env)).1 = room := by
  simp only [processed] at hp
  simp only [step]
  split
  · rename_i hc
    rw [if_pos hc] at hp
    simp [on_websocket_message, Option.map_eq_none_iff.1 hp]
  · rfl

/-- What a message with status code 200 leaves behind, by its type. -/
inductive Dispatched (room : LiveMeetingRoom) (params : JsonObject) (env : MessageEnv) :
    Int → LiveMeetingRoom → Prop where
  | create : Dispatched room params env TYPE_CONFERENCE_CREATE (room.on_ws_conference_create params env).1
  | join : Dispatched room params env TYPE_CONFERENCE_JOIN (room.on_ws_conference_join params env).1
  | new_joined : Dispatched room params env TYPE_CONFERENCE_NEW_JOINED (room.on_ws_conference_new_joined params).1
  | pull_stream : Dispatched room params env TYPE_CONFERENCE_PULL_STREAM (room.on_ws_conference_pull_stream params env)
  | stop_pulling : Dispatched room params env TYPE_CONFERENCE_STOP_PULLING room.on_ws_conference_stop_pulling
  | exit : Dispatched room params env TYPE_CONFERENCE_EXIT (room.on_ws_conference_exit params).1
  | user_gone : Dispatched room params env TYPE_CONFERENCE_USER_GONE (room.on_ws_conference_user_gone params).1
  | stop : Dispatched room params env TYPE_CONFERENCE_STOP (room.on_ws_conference_stop params).1
  | online_users :
    Dispatched room params env TYPE_CONFERENCE_ONLINE_USERS (room.on_ws_conference_online_users params).1
  | closing :
    Dispatched room params env TYPE_CONFERENCE_CLOSING
      (room.on_ws_conference_closing params).1.on_ws_conference_heartbeat
  /-- The heartbeat and the types without a handler. -/
  | other {opcode : Int} (h : opcode ∉ [TYPE_CONFERENCE_CREATE, TYPE_CONFERENCE_JOIN, TYPE_CONFERENCE_NEW_JOINED,
      TYPE_CONFERENCE_PULL_STREAM, TYPE_CONFERENCE_STOP_PULLING, TYPE_CONFERENCE_EXIT, TYPE_CONFERENCE_USER_GONE,
      TYPE_CONFERENCE_STOP, TYPE_CONFERENCE_ONLINE_USERS, TYPE_CONFERENCE_CLOSING]) :
    Dispatched room params env opcode room

theorem dispatched (room : LiveMeetingRoom) (opcode : Int) (params : JsonObject) (env : MessageEnv) :
    Dispatched room params env opcode (room.on_ws_message opcode params env).1 := by
  by_cases h1 : opcode = TYPE_CONFERENCE_CREATE
  · exact h1 ▸ .create
  by_cases h2 : opcode = TYPE_CONFERENCE_JOIN
  · exact h2 ▸ .join
  by_cases h3 : opcode = TYPE_CONFERENCE_NEW_JOINED
  · exact h3 ▸ .new_joined
  by_cases h4 : opcode = TYPE_CONFERENCE_PULL_STREAM
  · exact h4 ▸ .pull_stream
  by_cases h5 : opcode = TYPE_CONFERENCE_STOP_PULLING
  · exact h5 ▸ .stop_pulling
  by_cases h6 : opcode = TYPE_CONFERENCE_EXIT
  · exact h6 ▸ .exit
  by_cases h7 : opcode = TYPE_CONFERENCE_USER_GONE
  · exact h7 ▸ .user_gone
  by_cases h8 : opcode = TYPE_CONFERENCE_STOP
  · exact h8 ▸ .stop
  by_cases h9 : opcode = TYPE_CONFERENCE_ONLINE_USERS
  · exact h9 ▸ .online_users
  by_cases h10 : opcode = TYPE_CONFERENCE_CLOSING
  · exact h10 ▸ .closing
  · have hsame : (room.on_ws_message opcode params env).1 = room := by
      simp only [on_ws_message, h1, h2, h3, h4, h5, h6, h7, h8, h9, h10, if_false]
      split <;> rfl
    rw [hsame]
    exact .other (by simp [h1, h2, h3, h4, h5, h6, h7, h8, h9, h10])

/-! ### Operations that leave the senders alone -/

theorem add_other_user_senders (room : LiveMeetingRoom) (user : OnlineUser) :
    (room.add_other_user user).senders = room.senders := by
  unfold add_other_user
  split <;> rfl

theorem pull_stream_user_senders (room : LiveMeetingRoom) (streamJson : JsonObject) (env : Nat → ReceiverEnv) :
    (room.pull_stream_user streamJson env).senders = room.senders := by
  unfold pull_stream_user
  dsimp only
  split <;> rfl

theorem on_ws_conference_pull_stream_senders (room : LiveMeetingRoom) (params : JsonObject) (env : MessageEnv) :
    (room.on_ws_conference_pull_stream params env).senders = room.senders :=
  foldl_keeps senders (fun room _ => pull_stream_user_senders room _ _) _ room

theorem on_ws_conference_online_users_senders (room : LiveMeetingRoom) (params : JsonObject) :
    (room.on_ws_conference_online_users params).1.senders = room.senders :=
  foldl_keeps senders add_other_user_senders _ { room with m_is_signal_running := false }

theorem throttle_senders {room room' : LiveMeetingRoom} {nowSeconds : UInt64}
    (h : room.throttle nowSeconds = some room') : room'.senders = room.senders := by
  unfold throttle at h
  split at h
  · cases h
  · cases h
    rfl

theorem send_request_senders (room : LiveMeetingRoom) (env : SignalEnv) (cmd : Int) (params : JsonObject) :
    (room.send_request env cmd params).room.senders = room.senders := by
  unfold send_request
  split <;> rfl

theorem signal_enter_senders (room : LiveMeetingRoom) (env : SignalEnv) (cmd : Int) (params : JsonObject)
    (update : LiveMeetingRoom → LiveMeetingRoom) (hu : ∀ room, (update room).senders = room.senders) :
    (room.signal_enter env cmd params update).room.senders = room.senders := by
  unfold signal_enter
  split
  · rfl
  split
  · rfl
  split
  · rfl
  · rename_i room' h
    rw [send_request_senders, hu, throttle_senders h]

theorem signal_inside_senders (room : LiveMeetingRoom) (env : SignalEnv) (cmd : Int) :
    (room.signal_inside env cmd).room.senders = room.senders := by
  unfold signal_inside
  split
  · rfl
  split
  · rfl
  split
  · rfl
  · rename_i room' h
    rw [send_request_senders, throttle_senders h]

theorem signal_streams_senders (room : LiveMeetingRoom) (env : SignalEnv) (cmd : Int) (streams : Streams) :
    (room.signal_streams env cmd streams).1.room.senders = room.senders := by
  unfold signal_streams
  split
  · rfl
  split
  · rfl
  dsimp only
  split
  · rfl
  split
  · rfl
  · rename_i room' h
    rw [send_request_senders, throttle_senders h]

theorem signal_heartbeat_senders (room : LiveMeetingRoom) (myUserUUID conferenceID : Bytes) (sent : Bool) :
    (room.signal_heartbeat myUserUUID conferenceID sent).room.senders = room.senders := by
  unfold signal_heartbeat
  split
  · rfl
  · split <;> rfl

theorem send_h264_data_senders (room : LiveMeetingRoom) (data : Buffer) (addr length : Nat) (now_ms : UInt32)
    (sendto : Nat → IPAddrV4 → Int) :
    (room.send_h264_data data addr length now_ms sendto).1.senders = room.senders := by
  unfold send_h264_data
  split
  · rfl
  · rename_i sender h
    simp [senders, h, RTPSessionVideo.send_h264_data_session, audioTarget, videoTarget]

theorem send_aac_data_senders (room : LiveMeetingRoom) (data : Buffer) (length : Nat) (now_ms : UInt32)
    (sendto : IPAddrV4 → Int) : (room.send_aac_data data length now_ms sendto).1.senders = room.senders := by
  unfold send_aac_data
  split
  · rfl
  · rename_i sender h
    simp [senders, h, RTPSessionAudio.send_aac_data_session, audioTarget, videoTarget]

theorem receive_round_senders (room : LiveMeetingRoom) (arrived : Bytes → Buffer × Buffer) :
    (room.receive_round arrived).1.senders = room.senders := by
  unfold receive_round
  split <;> rfl

/-! ### Operations on the senders -/

/-- `add_sender_destination`, called with the room's own values, connects the senders. -/
theorem add_sender_destination_senders (room : LiveMeetingRoom) (env : MessageEnv) :
    (room.add_sender_destination room.m_video_push_ip room.m_video_push_port 0 0 room.m_video_ssrc
      room.m_audio_push_ip room.m_audio_push_port 0 0 room.m_audio_ssrc env).senders =
    room.senders.connect env.audio.ok env.video.ok := by
  unfold add_sender_destination Senders.connect
  cases ha : room.m_rtp_audio_sender with
  | none => simp [senders, ha]
  | some audio =>
  cases hv : room.m_rtp_video_sender with
  | none => simp [senders, ha, hv]
  | some video =>
    simp only [senders, ha, hv, Option.map_some]
    by_cases hs : room.m_rtp_send_initialized = true
    · simp [hs, RTPSessionAudio.add_destination_session, RTPSessionVideo.add_destination_session, audioTarget,
        videoTarget]
    · have hia := audio.init_session 0 0 room.m_audio_ssrc env.audio
      have hiv := video.init_session 0 0 room.m_video_ssrc env.video
      simp only [hs, if_false, audioTarget, videoTarget, Bool.false_eq_true, ← hia, ← hiv]
      generalize audio.init 0 0 room.m_audio_ssrc env.audio.allocated env.audio.port env.audio.bound = a
      generalize video.init 0 0 room.m_video_ssrc env.video.allocated env.video.port env.video.bound = v
      obtain ⟨audio', aok⟩ := a
      obtain ⟨video', vok⟩ := v
      cases aok <;> cases vok <;>
        simp [RTPSessionAudio.add_destination_session, RTPSessionVideo.add_destination_session]

theorem enter_conference_senders (room : LiveMeetingRoom) (params : JsonObject) (env : MessageEnv) :
    (room.enter_conference params env).senders =
      room.senders.act (.enter (readAudioTarget params) (readVideoTarget params) env.audio.ok env.video.ok) := by
  unfold enter_conference
  dsimp only
  have h := add_sender_destination_senders { room with
    m_my_room_id := (params.get (ascii "conference_id")).as_string
    m_my_ip_addr := (read_online_user params).userIP
    m_my_user_id := (read_online_user params).userID
    m_my_user_name := (read_online_user params).userName
    m_my_user_uuid := (read_online_user params).userUUID
    m_video_ssrc := (read_online_user params).videoSSRC
    m_audio_ssrc := (read_online_user params).audioSSRC
    m_video_push_ip := (params.get (ascii "push_video_ip")).as_string
    m_video_push_port := readPort params (ascii "push_video_port")
    m_audio_push_ip := (params.get (ascii "push_audio_ip")).as_string
    m_audio_push_port := readPort params (ascii "push_audio_port") } env
  split <;> exact h

theorem leave_conference_senders (room : LiveMeetingRoom) :
    room.leave_conference.senders = room.senders.act (.leave noTarget noTarget) := rfl

theorem free_context_senders (room : LiveMeetingRoom) : room.free_context.senders = room.senders.release := rfl

theorem init_senders (room : LiveMeetingRoom) (ip : Bytes) (port : UInt16) (thread audio video : Bool) :
    (room.init ip port thread audio video).1.senders = room.senders.act (.restart (thread && audio && video)) := by
  unfold init Senders.act
  have hi : room.senders.initialized = room.m_initialized := rfl
  cases h : room.m_initialized <;> cases thread <;> cases audio <;> cases video <;> simp only [hi, h] <;> rfl

theorem on_ws_conference_join_senders (room : LiveMeetingRoom) (params : JsonObject) (env : MessageEnv) :
    (room.on_ws_conference_join params env).1.senders =
      if room.is_mine params then
        room.senders.act (.enter (readAudioTarget params) (readVideoTarget params) env.audio.ok env.video.ok)
      else room.senders := by
  unfold on_ws_conference_join
  split
  · exact enter_conference_senders room params env
  · rfl

theorem on_ws_message_senders (room : LiveMeetingRoom) (opcode : Int) (params : JsonObject) (env : MessageEnv) :
    (room.on_ws_message opcode params env).1.senders = room.senders.act (room.messageAction opcode params env) := by
  have hd := room.dispatched opcode params env
  generalize (room.on_ws_message opcode params env).1 = room' at hd ⊢
  -- once the opcode is known, the action is evaluated
  cases hd with
  | create => exact enter_conference_senders room params env
  | join =>
    refine (on_ws_conference_join_senders room params env).trans ?_
    cases hm : room.is_mine params <;> simp only [messageAction, enters, hm] <;> rfl
  | new_joined => exact add_other_user_senders room _
  | pull_stream => exact on_ws_conference_pull_stream_senders room params env
  | stop_pulling => rfl
  | user_gone => rfl
  | exit => exact leave_conference_senders room
  | stop => exact leave_conference_senders room
  | closing => exact leave_conference_senders room
  | online_users => exact on_ws_conference_online_users_senders room params
  | other h =>
    simp only [List.mem_cons, List.not_mem_nil, or_false, not_or] at h
    have henters : room.enters opcode params = false := by simp [enters, h]
    have hleaves : leaves opcode = false := by simp [leaves, h]
    rw [messageAction, henters, hleaves]
    rfl

/-- Every call acts on the senders as its action does. -/
theorem senders_step (room : LiveMeetingRoom) (c : Call) :
    (room.step c).1.senders = room.senders.act (room.action c) := by
  cases hp : room.processed c with
  | some m =>
    obtain ⟨opcode, params, env⟩ := m
    unfold action
    rw [step_processed room hp, hp]
    exact on_ws_message_senders room opcode params env
  | none =>
    cases c with
    | init ip port thread audio video => exact init_senders room ip port thread audio video
    | un_init => exact free_context_senders room
    | send_h264_data data addr length now_ms sendto => exact send_h264_data_senders room data addr length now_ms sendto
    | send_aac_data data length now_ms sendto => exact send_aac_data_senders room data length now_ms sendto
    | signal_create_conference id name env => exact signal_enter_senders room env _ _ _ (fun _ => rfl)
    | signal_join_conference conf id name env => exact signal_enter_senders room env _ _ _ (fun _ => rfl)
    | signal_start_pull_stream streams env => exact signal_streams_senders room env _ streams
    | signal_stop_pull_stream streams env => exact signal_streams_senders room env _ streams
    | signal_exit_conference env => exact signal_inside_senders room env _
    | signal_stop_conference env => exact signal_inside_senders room env _
    | signal_online_users env => exact signal_inside_senders room env _
    | signal_heartbeat uuid conf sent => exact signal_heartbeat_senders room uuid conf sent
    | message json env =>
      unfold action
      rw [message_unprocessed hp, hp]
      rfl
    | event e =>
      simp only [step]
      split <;> rfl
    | receive arrived => exact receive_round_senders room arrived
    | _ => rfl

/-- Which call has which action. -/
inductive Acts (room : LiveMeetingRoom) (c : Call) : Senders.Action → Prop where
  | enters (opcode : Int) (params : JsonObject) (env : MessageEnv)
      (hp : room.processed c = some (opcode, params, env)) (he : room.enters opcode params = true) :
      Acts room c (.enter (readAudioTarget params) (readVideoTarget params) env.audio.ok env.video.ok)
  | leaves (opcode : Int) (params : JsonObject) (env : MessageEnv)
      (hm : room.processed c = some (opcode, params, env)) (hl : leaves opcode = true)
      (hp : ∀ opcode params env, room.processed c = some (opcode, params, env) →
        room.enters opcode params = false)
      (hc : ∀ ip port thread audio video, c ≠ .init ip port thread audio video) :
      Acts room c (.leave noTarget noTarget)
  | init (ip : Bytes) (port : UInt16) (thread audio video : Bool) (hc : c = .init ip port thread audio video) :
      Acts room c (.restart (thread && audio && video))
  | un_init (hc : c = .un_init) : Acts room c .free
  | other (hp : ∀ opcode params env, room.processed c = some (opcode, params, env) →
        room.enters opcode params = false)
      (hc : ∀ ip port thread audio video, c ≠ .init ip port thread audio video) : Acts room c .skip

theorem action_acts (room : LiveMeetingRoom) (c : Call) : Acts room c (room.action c) := by
  unfold action
  split
  · rename_i opcode params env hp
    have hc : ∀ ip port thread audio video, c ≠ .init ip port thread audio video := by
      rintro ip port thread audio video rfl
      simp [processed] at hp
    unfold messageAction
    by_cases he : room.enters opcode params = true
    · rw [if_pos he]
      exact .enters opcode params env hp he
    · rw [if_neg he]
      have hnot : ∀ opcode params env, room.processed c = some (opcode, params, env) →
          room.enters opcode params = false := by
        intro opcode' params' env' hp'
        obtain ⟨rfl, rfl, -⟩ : opcode = opcode' ∧ params = params' ∧ env = env' := by simpa [hp] using hp'
        simpa using he
      by_cases hl : LiveMeetingRoom.leaves opcode = true
      · rw [if_pos hl]
        exact .leaves opcode params env hp hl hnot hc
      · rw [if_neg hl]
        exact .other hnot hc
  · rename_i hp
    split
    · exact .init _ _ _ _ _ rfl
    · exact .un_init rfl
    · rename_i hinit _
      exact .other (by simp [hp]) hinit

end LiveMeetingRoom

end RtcClient
