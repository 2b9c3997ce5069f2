import RtcClient.App.Roster
/-!
# One user of the room

The room keeps an object for each user. What becomes of one of them in a call is said
by `userAfter`, from what the call brings and the room's other fields; the other users
have no part in it (`user_step`), nor in those fields (`core_step`).
-/

namespace RtcClient

open Lib

namespace RoomUser

/-- The rounds of `ssrcs` in a pull-stream response. -/
def setUp (u : RoomUser) (ssrcsJson : JsonObject) (env : Nat → ReceiverEnv) : RoomUser :=
  (List.range ssrcsJson.array_size.toNat).foldl (fun (roomUser : RoomUser) (j : Nat) =>
    let ssrcJson := (ssrcsJson.getIndex j).as_object
    (roomUser.init (c_str (ssrcJson.get (ascii "ip")).as_string) (LiveMeetingRoom.readPort ssrcJson (ascii "port")).toNat
      (LiveMeetingRoom.readSSRC ssrcJson (ascii "ssrc")) (env j)).1) u

/-- What `receive_loop` does for one user. -/
def receive (u : RoomUser) (arrived : Buffer × Buffer) : RoomUser × List Delivery :=
  let audio := u.receive_audio arrived.1
  let video := audio.1.receive_video arrived.2
  (video.1, audio.2.toList ++ video.2.toList)

end RoomUser

namespace LiveMeetingRoom

/-- The object kept for a user. -/
def user (room : LiveMeetingRoom) (uuid : Bytes) : Option RoomUser := Assoc.find room.m_other_users_map uuid

/-- The object made for a user that is announced. -/
def newUser (room : LiveMeetingRoom) (user : OnlineUser) : RoomUser where
  m_user_id := user.userID
  m_user_name := user.userName
  m_user_ip_addr := user.userIP
  m_user_uuid := user.userUUID
  m_video_ssrc := user.videoSSRC
  m_audio_ssrc := user.audioSSRC
  m_aac_callback := room.m_aac_callback
  m_h264_callback := room.m_h264_callback
  m_pinhole_uuid := room.m_my_user_uuid

/-- The streams of the user `uuid` in a pull-stream response, with what the system answers for them. -/
def streamsOf (uuid : Bytes) (params : JsonObject) (env : MessageEnv) : List (JsonObject × (Nat → ReceiverEnv)) :=
  let streamsJson := (params.get (ascii "streams")).as_object
  (List.range streamsJson.array_size.toNat).filterMap (fun (i : Nat) =>
    let streamJson := (streamsJson.getIndex i).as_object
    if (streamJson.get (ascii "user_uuid")).as_string = uuid then
      some ((streamJson.get (ascii "ssrcs")).as_object, env.receivers i)
    else none)

/-- What a pull-stream response does to the user `uuid`. -/
def pullStreams (uuid : Bytes) (params : JsonObject) (env : MessageEnv) (u : RoomUser) : RoomUser :=
  (streamsOf uuid params env).foldl (fun u s => u.setUp s.1 s.2) u

/-- What a message does to the user `uuid`. -/
def userAfterMessage (room : LiveMeetingRoom) (uuid : Bytes) (opcode : Int) (params : JsonObject) (env : MessageEnv)
    (u : Option RoomUser) : Option RoomUser :=
  if leaves opcode then none
  else if opcode = TYPE_CONFERENCE_USER_GONE then
    if (params.get (ascii "user_uuid")).as_string = uuid then none else u
  else if opcode = TYPE_CONFERENCE_PULL_STREAM then u.map (pullStreams uuid params env)
  else u.or (((announced opcode params).find? (fun user => user.userUUID = uuid)).map room.newUser)

/-- What a call does to the user `uuid`. -/
def userAfter (room : LiveMeetingRoom) (uuid : Bytes) (c : Call) (u : Option RoomUser) : Option RoomUser :=
  match room.processed c with
  | some (opcode, params, env) => room.userAfterMessage uuid opcode params env u
  | none =>
    match c with
    | .init _ _ thread audio video => if room.m_initialized || !(thread && audio && video) then none else u
    | .un_init => none
    | .receive arrived =>
      if room.m_receive_thread_running then u.map (fun u => (u.receive (arrived uuid)).1) else u
    | _ => u

/-! ## Operations without the other users -/

/-- The room with other users. -/
def withUsers (room : LiveMeetingRoom) (users : List (Bytes × RoomUser)) : LiveMeetingRoom :=
  { room with m_other_users_map := users }

/-- An operation that neither looks at the users nor changes them. -/
def Frames (op : LiveMeetingRoom → LiveMeetingRoom) : Prop :=
  ∀ room users, op (room.withUsers users) = (op room).withUsers users

theorem Frames.comp {f g : LiveMeetingRoom → LiveMeetingRoom} (hf : Frames f) (hg : Frames g) :
    Frames (fun room => f (g room)) := by
  intro room users
  change f (g (room.withUsers users)) = _
  rw [hg, hf]

theorem Frames.ite {p : LiveMeetingRoom → Prop} [DecidablePred p] {f g : LiveMeetingRoom → LiveMeetingRoom}
    (hp : ∀ room users, p (room.withUsers users) ↔ p room) (hf : Frames f) (hg : Frames g) :
    Frames (fun room => if p room then f room else g room) := by
  intro room users
  dsimp only
  by_cases h : p room
  · rw [if_pos h, if_pos ((hp room users).2 h), hf]
  · rw [if_neg h, if_neg (fun h' => h ((hp room users).1 h')), hg]

theorem frames_same : Frames (fun room => room) := fun _ _ => rfl

theorem frames_send_h264_data (data : Buffer) (addr length : Nat) (now_ms : UInt32)
    (sendto : Nat → IPAddrV4 → Int) : Frames (fun room => (room.send_h264_data data addr length now_ms sendto).1) := by
  intro room users
  cases h : room.m_rtp_video_sender <;> simp only [send_h264_data, withUsers, h]

theorem frames_send_aac_data (data : Buffer) (length : Nat) (now_ms : UInt32)
    (sendto : IPAddrV4 → Int) : Frames (fun room => (room.send_aac_data data length now_ms sendto).1) := by
  intro room users
  cases h : room.m_rtp_audio_sender <;> simp only [send_aac_data, withUsers, h]

theorem send_request_room (room : LiveMeetingRoom) (env : SignalEnv) (cmd : Int) (params : JsonObject) :
    (room.send_request env cmd params).room =
      { room with m_is_signal_running := env.sent && room.m_is_signal_running } := by
  cases h : env.sent <;> simp [send_request, h]

/-- A request: two tests that refuse it, the throttle, and what is done before it is sent. -/
theorem frames_request (absent refused : LiveMeetingRoom → Bool) (env : SignalEnv)
    (ha : ∀ room users, absent (room.withUsers users) = absent room)
    (hr : ∀ room users, refused (room.withUsers users) = refused room)
    {update op : LiveMeetingRoom → LiveMeetingRoom} (hu : Frames update)
    (hop : ∀ room, op room =
      if absent room then room
      else if refused room then room
      else
        match room.throttle env.nowSeconds with
        | none => room
        | some room => { update room with m_is_signal_running := env.sent && (update room).m_is_signal_running }) :
    Frames op := by
  have hthrottle : op = fun room =>
      if absent room then room
      else if refused room then room
      else if (room.m_is_signal_running && env.nowSeconds - room.m_prev_signal_time < 6) = true then room
      else
        let room := update { room with m_is_signal_running := true, m_prev_signal_time := env.nowSeconds }
        { room with m_is_signal_running := env.sent && room.m_is_signal_running } := by
    funext room
    rw [hop]
    unfold throttle
    split_ifs <;> rfl
  rw [hthrottle]
  refine .ite (fun room users => by rw [ha]) frames_same (.ite (fun room users => by rw [hr]) frames_same ?_)
  refine .ite (fun _ _ => .rfl) frames_same ?_
  intro room users
  exact congrArg (fun r : LiveMeetingRoom => { r with m_is_signal_running := env.sent && r.m_is_signal_running })
    (hu { room with m_is_signal_running := true, m_prev_signal_time := env.nowSeconds } users)

theorem frames_signal_enter (env : SignalEnv) (cmd : Int) (params : JsonObject)
    {update : LiveMeetingRoom → LiveMeetingRoom} (hu : Frames update) :
    Frames (fun room => (room.signal_enter env cmd params update).room) := by
  refine frames_request (fun room => room.m_websocket_client.isNone)
    (fun room => room.m_my_room_id.length != 0 || room.m_my_user_uuid.length != 0) env
    (fun _ _ => rfl) (fun _ _ => rfl) hu (fun room => ?_)
  unfold signal_enter
  split_ifs
  · rfl
  · rfl
  · cases room.throttle env.nowSeconds with
    | none => rfl
    | some room => exact send_request_room _ _ _ _

theorem frames_signal_inside (env : SignalEnv) (cmd : Int) :
    Frames (fun room => (room.signal_inside env cmd).room) := by
  refine frames_request (fun room => room.m_websocket_client.isNone) (fun room => !room.joined)
    env (fun _ _ => rfl) (fun _ _ => rfl) frames_same (fun room => ?_)
  unfold signal_inside
  split_ifs
  · rfl
  · rfl
  · cases room.throttle env.nowSeconds with
    | none => rfl
    | some room => exact send_request_room _ _ _ _

theorem frames_signal_streams (env : SignalEnv) (cmd : Int) (streams : Streams) :
    Frames (fun room => (room.signal_streams env cmd streams).1.room) := by
  refine frames_request (fun room => room.m_websocket_client.isNone)
    (fun room => !room.joined || decide ((Assoc.erase streams room.m_my_user_uuid).length = 0))
    env (fun _ _ => rfl) (fun _ _ => rfl) frames_same (fun room => ?_)
  unfold signal_streams
  by_cases hj : room.joined <;> by_cases he : (Assoc.erase streams room.m_my_user_uuid).length = 0 <;>
    simp only [hj, he, Bool.not_true, Bool.not_false, if_true, if_false, Bool.false_or, Bool.true_or,
      Bool.false_eq_true, decide_true, decide_false]
  all_goals split_ifs
  all_goals try rfl
  cases room.throttle env.nowSeconds with
  | none => rfl
  | some room => exact send_request_room _ _ _ _

theorem frames_signal_heartbeat (myUserUUID conferenceID : Bytes) (sent : Bool) :
    Frames (fun room => (room.signal_heartbeat myUserUUID conferenceID sent).room) := by
  have hsame : (fun room : LiveMeetingRoom => (room.signal_heartbeat myUserUUID conferenceID sent).room) =
      fun room => room := by
    funext room
    unfold signal_heartbeat
    split_ifs <;> rfl
  rw [hsame]
  exact frames_same

theorem frames_add_sender_destination (videoIP : Bytes) (videoPort videoSeq : UInt16) (videoTs videoSSRC : UInt32)
    (audioIP : Bytes) (audioPort audioSeq : UInt16) (audioTs audioSSRC : UInt32) (env : MessageEnv) :
    Frames (fun room => room.add_sender_destination videoIP videoPort videoSeq videoTs videoSSRC audioIP audioPort
      audioSeq audioTs audioSSRC env) := by
  intro room users
  cases ha : room.m_rtp_audio_sender with
  | none => simp only [add_sender_destination, withUsers, ha]
  | some audio =>
    cases hv : room.m_rtp_video_sender with
    | none => simp only [add_sender_destination, withUsers, ha, hv]
    | some video =>
      cases hi : room.m_rtp_send_initialized with
      | true => simp only [add_sender_destination, withUsers, ha, hv, hi, if_true]
      | false =>
        simp only [add_sender_destination, withUsers, ha, hv, hi, Bool.false_eq_true, if_false]
        split
        · rfl
        · split <;> rfl

theorem frames_enter_conference (params : JsonObject) (env : MessageEnv) :
    Frames (fun room => room.enter_conference params env) := by
  refine Frames.comp (f := fun room =>
    if room.m_receive_thread_running = true then room else { room with m_receive_thread_running := env.thread }) ?_ ?_
  · exact .ite (fun _ _ => .rfl) frames_same (fun _ _ => rfl)
  · dsimp only
    exact Frames.comp (frames_add_sender_destination _ _ _ _ _ _ _ _ _ _ env) (fun _ _ => rfl)

theorem frames_on_ws_conference_create (params : JsonObject) (env : MessageEnv) :
    Frames (fun room => (room.on_ws_conference_create params env).1) :=
  Frames.comp (f := fun room => { room with m_is_signal_running := false }) (fun _ _ => rfl)
    (frames_enter_conference params env)

theorem frames_on_ws_conference_join (params : JsonObject) (env : MessageEnv) :
    Frames (fun room => (room.on_ws_conference_join params env).1) :=
  Frames.comp (f := fun room => { room with m_is_signal_running := false }) (fun _ _ => rfl)
    (.ite (fun _ _ => .rfl) (frames_enter_conference params env) frames_same)

/-- The calls after which the users may be others. -/
def touches : Call → Bool
  | .init _ _ _ _ _ | .un_init | .message _ _ | .receive _ => true
  | _ => false

theorem frames_step {c : Call} (h : touches c = false) : Frames (fun room => (room.step c).1) := by
  cases c with
  | init | un_init | message | receive => cases h
  | send_h264_data data addr length now_ms sendto => exact frames_send_h264_data data addr length now_ms sendto
  | send_aac_data data length now_ms sendto => exact frames_send_aac_data data length now_ms sendto
  | signal_create_conference id name env => exact frames_signal_enter env _ _ frames_same
  | signal_join_conference conf id name env => exact frames_signal_enter env _ _ (fun _ _ => rfl)
  | signal_start_pull_stream streams env => exact frames_signal_streams env _ streams
  | signal_stop_pull_stream streams env => exact frames_signal_streams env _ streams
  | signal_exit_conference env => exact frames_signal_inside env _
  | signal_stop_conference env => exact frames_signal_inside env _
  | signal_online_users env => exact frames_signal_inside env _
  | signal_heartbeat uuid conf sent => exact frames_signal_heartbeat uuid conf sent
  | event e =>
    have hstep : (fun room : LiveMeetingRoom => (room.step (.event e)).1) = fun room => room := by
      funext room
      simp only [step]
      split <;> rfl
    rw [hstep]
    exact frames_same
  | _ => exact fun _ _ => rfl

theorem Frames.users {op : LiveMeetingRoom → LiveMeetingRoom} (h : Frames op) (room : LiveMeetingRoom) :
    (op room).m_other_users_map = room.m_other_users_map :=
  congrArg (·.m_other_users_map) (h room room.m_other_users_map)

theorem Frames.user {op : LiveMeetingRoom → LiveMeetingRoom} (h : Frames op) (room : LiveMeetingRoom) (uuid : Bytes) :
    (op room).user uuid = room.user uuid :=
  congrArg (Assoc.find · uuid) (h.users room)

/-! ## What the users have no part in -/

/-- The room without its users. -/
def core (room : LiveMeetingRoom) : LiveMeetingRoom := room.withUsers []

/-- An operation that the users have no part in, but for what becomes of them. -/
def Blind (op : LiveMeetingRoom → LiveMeetingRoom) : Prop :=
  ∀ room users, (op (room.withUsers users)).core = (op room).core

theorem Frames.blind {op : LiveMeetingRoom → LiveMeetingRoom} (h : Frames op) : Blind op := by
  intro room users
  rw [h]
  rfl

theorem Blind.ite {p : LiveMeetingRoom → Prop} [DecidablePred p] {f g : LiveMeetingRoom → LiveMeetingRoom}
    (hp : ∀ room users, p (room.withUsers users) ↔ p room) (hf : Blind f) (hg : Blind g) :
    Blind (fun room => if p room then f room else g room) := by
  intro room users
  dsimp only
  by_cases h : p room
  · rw [if_pos h, if_pos ((hp room users).2 h), hf]
  · rw [if_neg h, if_neg (fun h' => h ((hp room users).1 h')), hg]

/-- An operation on the users alone. -/
theorem blind_of_core {op : LiveMeetingRoom → LiveMeetingRoom} (h : ∀ room, (op room).core = room.core) : Blind op := by
  intro room users
  rw [h, h]
  rfl

theorem core_add_other_user (room : LiveMeetingRoom) (user : OnlineUser) :
    (room.add_other_user user).core = room.core := by
  unfold add_other_user
  split <;> rfl

theorem core_pull_stream_user (room : LiveMeetingRoom) (streamJson : JsonObject) (env : Nat → ReceiverEnv) :
    (room.pull_stream_user streamJson env).core = room.core := by
  unfold pull_stream_user
  dsimp only
  split <;> rfl

theorem core_receive_round (room : LiveMeetingRoom) (arrived : Bytes → Buffer × Buffer) :
    (room.receive_round arrived).1.core = room.core := by
  unfold receive_round
  split <;> rfl

theorem core_pull_stream (room : LiveMeetingRoom) (params : JsonObject) (env : MessageEnv) :
    (room.on_ws_conference_pull_stream params env).core = { room.core with m_is_signal_running := false } :=
  congrArg (fun r : LiveMeetingRoom => { r with m_is_signal_running := false })
    (foldl_keeps core (fun room _ => core_pull_stream_user room _ _) _ room)

theorem core_online_users (room : LiveMeetingRoom) (params : JsonObject) :
    (room.on_ws_conference_online_users params).1.core = { room.core with m_is_signal_running := false } :=
  foldl_keeps core core_add_other_user _ { room with m_is_signal_running := false }

theorem blind_on_ws_message (opcode : Int) (params : JsonObject) (env : MessageEnv) :
    Blind (fun room => (room.on_ws_message opcode params env).1) := by
  by_cases h1 : opcode = TYPE_CONFERENCE_CREATE
  · exact h1 ▸ (frames_on_ws_conference_create params env).blind
  by_cases h2 : opcode = TYPE_CONFERENCE_JOIN
  · exact h2 ▸ (frames_on_ws_conference_join params env).blind
  by_cases h3 : opcode = TYPE_CONFERENCE_NEW_JOINED
  · exact h3 ▸ blind_of_core (fun room => core_add_other_user room _)
  by_cases h4 : opcode = TYPE_CONFERENCE_PULL_STREAM
  · subst h4
    exact fun room users =>
      (core_pull_stream (room.withUsers users) params env).trans (core_pull_stream room params env).symm
  by_cases h5 : opcode = TYPE_CONFERENCE_STOP_PULLING
  · exact h5 ▸ fun _ _ => rfl
  by_cases h6 : opcode = TYPE_CONFERENCE_EXIT
  · exact h6 ▸ fun _ _ => rfl
  by_cases h7 : opcode = TYPE_CONFERENCE_USER_GONE
  · exact h7 ▸ fun _ _ => rfl
  by_cases h8 : opcode = TYPE_CONFERENCE_STOP
  · exact h8 ▸ fun _ _ => rfl
  by_cases h9 : opcode = TYPE_CONFERENCE_ONLINE_USERS
  · subst h9
    exact fun room users => (core_online_users (room.withUsers users) params).trans (core_online_users room params).symm
  by_cases h10 : opcode = TYPE_CONFERENCE_CLOSING
  · exact h10 ▸ fun _ _ => rfl
  · have hsame : (fun room : LiveMeetingRoom => (room.on_ws_message opcode params env).1) = fun room => room := by
      funext room
      simp only [on_ws_message, h1, h2, h3, h4, h5, h6, h7, h8, h9, h10, if_false]
      split <;> rfl
    rw [hsame]
    exact frames_same.blind

theorem blind_init (ip : Bytes) (port : UInt16) (thread audio video : Bool) :
    Blind (fun room => (room.init ip port thread audio video).1) := by
  intro room users
  unfold init
  cases h : room.m_initialized <;> cases thread <;> cases audio <;> cases video <;> simp [withUsers, h] <;> rfl

/-- The other fields after a call depend on the other fields. -/
theorem blind_step (c : Call) : Blind (fun room => (room.step c).1) := by
  cases c with
  | init ip port thread audio video => exact blind_init ip port thread audio video
  | un_init => exact fun _ _ => rfl
  | message json env =>
    have hstep : (fun room : LiveMeetingRoom => (room.step (.message json env)).1) = fun room =>
        if room.m_websocket_client.isSome = true then (room.on_websocket_message json env).1 else room := by
      funext room
      simp only [step]
      split <;> rfl
    have hmessage : Blind (fun room => (room.on_websocket_message json env).1) := by
      unfold on_websocket_message
      cases json.bind read_message with
      | none => exact frames_same.blind
      | some m => exact blind_on_ws_message m.1 m.2 env
    rw [hstep]
    exact .ite (fun _ _ => .rfl) hmessage frames_same.blind
  | receive arrived => exact blind_of_core (fun room => core_receive_round room arrived)
  | _ => exact (frames_step rfl).blind

theorem core_step (room : LiveMeetingRoom) (c : Call) : (room.step c).1.core = (room.core.step c).1.core :=
  (blind_step c room []).symm

/-! ## What becomes of a user -/

theorem user_add_other_user (room : LiveMeetingRoom) (user : OnlineUser) (uuid : Bytes) :
    (room.add_other_user user).user uuid =
      (room.user uuid).or (if user.userUUID = uuid then some (room.newUser user) else none) := by
  unfold add_other_user
  cases h : Assoc.find room.m_other_users_map user.userUUID with
  | some u =>
    dsimp only
    split
    · rename_i he
      rw [← he, LiveMeetingRoom.user, h]
      rfl
    · rw [Option.or_none]
  | none =>
    dsimp only [LiveMeetingRoom.user]
    rw [Assoc.find_insert]
    split
    · rename_i he
      rw [← he, h]
      rfl
    · rw [Option.or_none]

theorem newUser_add_other_user (room : LiveMeetingRoom) (user : OnlineUser) :
    (room.add_other_user user).newUser = room.newUser := by
  unfold add_other_user
  split <;> rfl

/-- The first announcement of a user that is not there makes its object. -/
theorem user_add_other_users (users : List OnlineUser) (room : LiveMeetingRoom) (uuid : Bytes) :
    (users.foldl add_other_user room).user uuid =
      (room.user uuid).or ((users.find? (fun user => user.userUUID = uuid)).map room.newUser) := by
  induction users generalizing room with
  | nil => simp
  | cons user users ih =>
    rw [List.foldl_cons, ih, user_add_other_user, newUser_add_other_user, Option.or_assoc, List.find?_cons]
    by_cases he : user.userUUID = uuid <;> simp [he]

theorem user_pull_stream_user (room : LiveMeetingRoom) (streamJson : JsonObject) (env : Nat → ReceiverEnv)
    (uuid : Bytes) :
    (room.pull_stream_user streamJson env).user uuid = (room.user uuid).map (fun u =>
      if (streamJson.get (ascii "user_uuid")).as_string = uuid then
        u.setUp (streamJson.get (ascii "ssrcs")).as_object env
      else u) := by
  unfold pull_stream_user
  dsimp only
  by_cases he : (streamJson.get (ascii "user_uuid")).as_string = uuid
  · simp only [he, if_true]
    cases h : Assoc.find room.m_other_users_map uuid with
    | none => simp [LiveMeetingRoom.user, h]
    | some u =>
      simp only [LiveMeetingRoom.user, Assoc.find_insert, if_true, h, Option.map_some]
      rfl
  · simp only [he, if_false, Option.map_id']
    split
    · rfl
    · rw [LiveMeetingRoom.user, Assoc.find_insert, if_neg he]
      rfl

theorem user_pull_stream (room : LiveMeetingRoom) (params : JsonObject) (env : MessageEnv) (uuid : Bytes) :
    (room.on_ws_conference_pull_stream params env).user uuid = (room.user uuid).map (pullStreams uuid params env) := by
  change _ = (room.user uuid).map (fun u => pullStreams uuid params env u)
  simp only [on_ws_conference_pull_stream, pullStreams, streamsOf]
  generalize List.range _ = l
  change LiveMeetingRoom.user (l.foldl _ room) uuid = _
  induction l generalizing room with
  | nil => simp
  | cons i l ih =>
    rw [List.foldl_cons, ih, user_pull_stream_user, Option.map_map, List.filterMap_cons]
    refine congrArg (Option.map · _) (funext fun u => ?_)
    by_cases he :
        ((((params.get (ascii "streams")).as_object.getIndex i).as_object).get (ascii "user_uuid")).as_string = uuid
    · simp [he]
    · simp [he]

theorem user_receive_round (room : LiveMeetingRoom) (arrived : Bytes → Buffer × Buffer) (uuid : Bytes) :
    (room.receive_round arrived).1.user uuid =
      if room.m_receive_thread_running then (room.user uuid).map (fun u => (u.receive (arrived uuid)).1)
      else room.user uuid := by
  unfold receive_round
  split
  · dsimp only [LiveMeetingRoom.user]
    rw [List.map_map]
    exact Assoc.find_map (fun uuid u => (RoomUser.receive u (arrived uuid)).1) _ uuid
  · rfl

theorem user_on_ws_message (room : LiveMeetingRoom) (opcode : Int) (params : JsonObject) (env : MessageEnv)
    (uuid : Bytes) :
    (room.on_ws_message opcode params env).1.user uuid =
      room.userAfterMessage uuid opcode params env (room.user uuid) := by
  have hd := room.dispatched opcode params env
  generalize (room.on_ws_message opcode params env).1 = room' at hd ⊢
  have same {op : LiveMeetingRoom → LiveMeetingRoom} (h : Frames op) : (op room).user uuid = room.user uuid :=
    h.user room uuid
  cases hd with
  | create => exact (same (frames_on_ws_conference_create params env)).trans Option.or_none.symm
  | join => exact (same (frames_on_ws_conference_join params env)).trans Option.or_none.symm
  | new_joined => exact user_add_other_users [read_online_user params] room uuid
  | pull_stream => exact user_pull_stream room params env uuid
  | stop_pulling => exact Option.or_none.symm
  | user_gone => exact Assoc.find_erase _ _ _
  | exit => rfl
  | stop => rfl
  | closing => rfl
  | online_users =>
    exact user_add_other_users (announced TYPE_CONFERENCE_ONLINE_USERS params)
      { room with m_is_signal_running := false } uuid
  | other h =>
    simp only [List.mem_cons, List.not_mem_nil, or_false, not_or] at h
    simp [userAfterMessage, leaves, announced, h]

/-- What a call does to a user. -/
theorem user_step (room : LiveMeetingRoom) (c : Call) (uuid : Bytes) :
    (room.step c).1.user uuid = room.userAfter uuid c (room.user uuid) := by
  unfold userAfter
  cases hp : room.processed c with
  | some m =>
    obtain ⟨opcode, params, env⟩ := m
    rw [step_processed room hp]
    exact user_on_ws_message room opcode params env uuid
  | none =>
    cases c with
    | init ip port thread audio video =>
      simp only [step, init, LiveMeetingRoom.user]
      cases room.m_initialized <;> cases thread <;> cases audio <;> cases video <;> rfl
    | un_init => rfl
    | message json env => rw [message_unprocessed hp]
    | receive arrived => exact user_receive_round room arrived uuid
    | _ => exact (frames_step rfl).user room uuid

/-- It depends on the other fields of the room alone. -/
theorem userAfter_core (room : LiveMeetingRoom) (uuid : Bytes) (c : Call) :
    room.core.userAfter uuid c = room.userAfter uuid c := by
  funext u
  cases c <;> rfl

end LiveMeetingRoom

end RtcClient
