import Mathlib.Data.Finset.Basic
import Mathlib.Data.Finset.Dedup
import RtcClient.App.Callbacks
/-!
# What the application is told

The application learns of the other users through the event callback alone. The users it
keeps from the events are those of the room after every run (`told_users`); so no media
callback is made for a user that was not announced or has gone (`told_heard`).
-/

namespace RtcClient

open Lib

/-- The users an application keeps, after an event. -/
def ConferenceEvent.update (known : Finset Bytes) : ConferenceEvent → Finset Bytes
  | .EVENT_CONFERENCE_CREATED | .EVENT_CONFERENCE_JOINED => known
  | .EVENT_OTHER_USER_JOINED user => insert user.userUUID known
  | .EVENT_ONLINE_USERS users => known ∪ (users.map OnlineUser.userUUID).toFinset
  | .EVENT_USER_GONE_OUT userUUID => known.erase userUUID
  | .EVENT_CONFERENCE_EXIT _ | .EVENT_CONFERENCE_STOPPED _ | .EVENT_CONFERENCE_CLOSING _ => ∅

namespace LiveMeetingRoom

/-- The users an application keeps, after a call. It keeps none when it starts or stops the room. -/
def told (known : Finset Bytes) : Call × Output → Finset Bytes
  | (.init _ _ _ _ _, _) | (.un_init, _) => ∅
  | (_, .conference (some event)) => event.update known
  | _ => known

/-! ## The events -/

/-- The event of a message. -/
def eventOf (opcode : Int) (params : JsonObject) : Option ConferenceEvent :=
  if opcode = TYPE_CONFERENCE_CREATE then some .EVENT_CONFERENCE_CREATED
  else if opcode = TYPE_CONFERENCE_JOIN then some .EVENT_CONFERENCE_JOINED
  else if opcode = TYPE_CONFERENCE_NEW_JOINED then some (.EVENT_OTHER_USER_JOINED (read_online_user params))
  else if opcode = TYPE_CONFERENCE_EXIT then
    some (.EVENT_CONFERENCE_EXIT (params.get (ascii "user_uuid")).as_string)
  else if opcode = TYPE_CONFERENCE_USER_GONE then
    some (.EVENT_USER_GONE_OUT (params.get (ascii "user_uuid")).as_string)
  else if opcode = TYPE_CONFERENCE_STOP then
    some (.EVENT_CONFERENCE_STOPPED (params.get (ascii "conference_id")).as_string)
  else if opcode = TYPE_CONFERENCE_ONLINE_USERS then some (.EVENT_ONLINE_USERS (announced opcode params))
  else if opcode = TYPE_CONFERENCE_CLOSING then
    some (.EVENT_CONFERENCE_CLOSING (params.get (ascii "conference_id")).as_string)
  else none

/-- What only starting and stopping the room, and setting the callback, change. -/
structure Setup where
  initialized : Bool
  client : Option WSClient
  callback : Bool
deriving DecidableEq, Repr

def setup (room : LiveMeetingRoom) : Setup where
  initialized := room.m_initialized
  client := room.m_websocket_client
  callback := room.m_event_callback_func

theorem setup_add_sender_destination (room : LiveMeetingRoom) (videoIP : Bytes) (videoPort videoSeq : UInt16)
    (videoTs videoSSRC : UInt32) (audioIP : Bytes) (audioPort audioSeq : UInt16) (audioTs audioSSRC : UInt32)
    (env : MessageEnv) :
    (room.add_sender_destination videoIP videoPort videoSeq videoTs videoSSRC audioIP audioPort audioSeq audioTs
      audioSSRC env).setup = room.setup := by
  unfold add_sender_destination
  split
  · dsimp only
    split
    · rfl
    · split
      · rfl
      · split <;> rfl
  · rfl

theorem setup_enter_conference (room : LiveMeetingRoom) (params : JsonObject) (env : MessageEnv) :
    (room.enter_conference params env).setup = room.setup := by
  unfold enter_conference
  dsimp only
  split <;> exact setup_add_sender_destination _ _ _ _ _ _ _ _ _ _ _ _

theorem setup_add_other_user (room : LiveMeetingRoom) (user : OnlineUser) :
    (room.add_other_user user).setup = room.setup := by
  unfold add_other_user
  split <;> rfl

theorem setup_pull_stream_user (room : LiveMeetingRoom) (streamJson : JsonObject) (env : Nat → ReceiverEnv) :
    (room.pull_stream_user streamJson env).setup = room.setup := by
  unfold pull_stream_user
  dsimp only
  split <;> rfl

theorem setup_join (room : LiveMeetingRoom) (params : JsonObject) (env : MessageEnv) :
    (room.on_ws_conference_join params env).1.setup = room.setup := by
  unfold on_ws_conference_join
  split
  · exact setup_enter_conference room params env
  · rfl

theorem setup_online_users (room : LiveMeetingRoom) (params : JsonObject) :
    (room.on_ws_conference_online_users params).1.setup = room.setup :=
  foldl_keeps setup setup_add_other_user _ { room with m_is_signal_running := false }

theorem setup_on_ws_message (room : LiveMeetingRoom) (opcode : Int) (params : JsonObject) (env : MessageEnv) :
    (room.on_ws_message opcode params env).1.setup = room.setup := by
  have hd := room.dispatched opcode params env
  generalize (room.on_ws_message opcode params env).1 = room' at hd ⊢
  cases hd with
  | create => exact setup_enter_conference room params env
  | join => exact setup_join room params env
  | new_joined => exact setup_add_other_user room _
  | pull_stream => exact foldl_keeps setup (fun room _ => setup_pull_stream_user room _ _) _ room
  | online_users => exact setup_online_users room params
  | _ => rfl

theorem notify_setup {room room' : LiveMeetingRoom} (h : room'.setup = room.setup) (event : ConferenceEvent) :
    room'.notify event = room.notify event := by
  have hcb : room'.m_event_callback_func = room.m_event_callback_func := congrArg Setup.callback h
  rw [notify, notify, hcb]

/-- A message makes its event, if the callback is set. -/
theorem event_on_ws_message (room : LiveMeetingRoom) (opcode : Int) (params : JsonObject) (env : MessageEnv) :
    (room.on_ws_message opcode params env).2 = (eventOf opcode params).bind room.notify := by
  by_cases h1 : opcode = TYPE_CONFERENCE_CREATE
  · subst h1
    exact notify_setup (setup_enter_conference room params env) _
  by_cases h2 : opcode = TYPE_CONFERENCE_JOIN
  · subst h2
    exact notify_setup (setup_join room params env) _
  by_cases h3 : opcode = TYPE_CONFERENCE_NEW_JOINED
  · subst h3
    exact notify_setup (setup_add_other_user room _) _
  by_cases h4 : opcode = TYPE_CONFERENCE_PULL_STREAM
  · subst h4
    rfl
  by_cases h5 : opcode = TYPE_CONFERENCE_STOP_PULLING
  · subst h5
    rfl
  by_cases h6 : opcode = TYPE_CONFERENCE_EXIT
  · subst h6
    rfl
  by_cases h7 : opcode = TYPE_CONFERENCE_USER_GONE
  · subst h7
    rfl
  by_cases h8 : opcode = TYPE_CONFERENCE_STOP
  · subst h8
    rfl
  by_cases h9 : opcode = TYPE_CONFERENCE_ONLINE_USERS
  · subst h9
    exact notify_setup (setup_online_users room params) _
  by_cases h10 : opcode = TYPE_CONFERENCE_CLOSING
  · subst h10
    rfl
  · simp only [on_ws_message, eventOf, h1, h2, h3, h4, h5, h6, h7, h8, h9, h10, if_false]
    split <;> rfl

/-! ## Starting and stopping -/

theorem setup_send_request (room : LiveMeetingRoom) (env : SignalEnv) (cmd : Int) (params : JsonObject) :
    (room.send_request env cmd params).room.setup = room.setup := by
  rw [send_request_room]
  rfl

theorem setup_throttle {room room' : LiveMeetingRoom} {nowSeconds : UInt64}
    (h : room.throttle nowSeconds = some room') : room'.setup = room.setup := by
  obtain ⟨-, rfl⟩ := throttle_some h
  rfl

theorem setup_signal_enter (room : LiveMeetingRoom) (env : SignalEnv) (cmd : Int) (params : JsonObject)
    (update : LiveMeetingRoom → LiveMeetingRoom) (hu : ∀ room, (update room).setup = room.setup) :
    (room.signal_enter env cmd params update).room.setup = room.setup := by
  unfold signal_enter
  split
  · rfl
  split
  · rfl
  split
  · rfl
  · rename_i room' h
    rw [setup_send_request, hu, setup_throttle h]

theorem setup_signal_inside (room : LiveMeetingRoom) (env : SignalEnv) (cmd : Int) :
    (room.signal_inside env cmd).room.setup = room.setup := by
  unfold signal_inside
  split
  · rfl
  split
  · rfl
  split
  · rfl
  · rename_i room' h
    rw [setup_send_request, setup_throttle h]

theorem setup_signal_streams (room : LiveMeetingRoom) (env : SignalEnv) (cmd : Int) (streams : Streams) :
    (room.signal_streams env cmd streams).1.room.setup = room.setup := by
  unfold signal_streams
  split
  · rfl
  split
  · rfl
  dsimp only
  split
  · rfl
  split
  · rfl
  · rename_i room' h
    rw [setup_send_request, setup_throttle h]

theorem setup_signal_heartbeat (room : LiveMeetingRoom) (myUserUUID conferenceID : Bytes) (sent : Bool) :
    (room.signal_heartbeat myUserUUID conferenceID sent).room.setup = room.setup := by
  unfold signal_heartbeat
  split
  · rfl
  · split <;> rfl

theorem setup_send_h264_data (room : LiveMeetingRoom) (data : Buffer) (addr length : Nat) (now_ms : UInt32)
    (sendto : Nat → IPAddrV4 → Int) : (room.send_h264_data data addr length now_ms sendto).1.setup = room.setup := by
  unfold send_h264_data
  split <;> rfl

theorem setup_send_aac_data (room : LiveMeetingRoom) (data : Buffer) (length : Nat) (now_ms : UInt32)
    (sendto : IPAddrV4 → Int) : (room.send_aac_data data length now_ms sendto).1.setup = room.setup := by
  unfold send_aac_data
  split <;> rfl

theorem setup_receive_round (room : LiveMeetingRoom) (arrived : Bytes → Buffer × Buffer) :
    (room.receive_round arrived).1.setup = room.setup := by
  unfold receive_round
  split <;> rfl

/-- The calls that change what `setup` holds. -/
def sets : Call → Bool
  | .init _ _ _ _ _ | .un_init | .set_event_callback_func _ => true
  | _ => false

theorem setup_step (room : LiveMeetingRoom) {c : Call} (h : sets c = false) :
    (room.step c).1.setup = room.setup := by
  cases c with
  | init | un_init | set_event_callback_func => cases h
  | send_h264_data data addr length now_ms sendto => exact setup_send_h264_data room data addr length now_ms sendto
  | send_aac_data data length now_ms sendto => exact setup_send_aac_data room data length now_ms sendto
  | signal_create_conference id name env => exact setup_signal_enter room env _ _ _ (fun _ => rfl)
  | signal_join_conference conf id name env => exact setup_signal_enter room env _ _ _ (fun _ => rfl)
  | signal_start_pull_stream streams env => exact setup_signal_streams room env _ streams
  | signal_stop_pull_stream streams env => exact setup_signal_streams room env _ streams
  | signal_exit_conference env => exact setup_signal_inside room env _
  | signal_stop_conference env => exact setup_signal_inside room env _
  | signal_online_users env => exact setup_signal_inside room env _
  | signal_heartbeat uuid conf sent => exact setup_signal_heartbeat room uuid conf sent
  | message json env =>
    cases hp : room.processed (.message json env) with
    | none => rw [message_unprocessed hp]
    | some m => rw [step_processed room hp, setup_on_ws_message]
  | event e =>
    simp only [step]
    split <;> rfl
  | receive arrived => exact setup_receive_round room arrived
  | _ => rfl

/-- A room that is not initialised has no client and no users. -/
def Off (room : LiveMeetingRoom) : Prop :=
  room.m_initialized = false → room.m_websocket_client = none ∧ room.m_other_users_map = []

theorem processed_client {room : LiveMeetingRoom} {c : Call} {m : Int × JsonObject × MessageEnv}
    (hp : room.processed c = some m) : room.m_websocket_client ≠ none := by
  cases c with
  | message json env =>
    intro hc
    simp [processed, hc] at hp
  | _ => cases hp

theorem Off.step {room : LiveMeetingRoom} (h : room.Off) (c : Call) : (room.step c).1.Off := by
  intro hi
  have hsame (hs : sets c = false) : room.m_initialized = false ∧
      (room.step c).1.m_websocket_client = room.m_websocket_client :=
    have hset := room.setup_step hs
    ⟨(congrArg Setup.initialized hset).symm.trans hi, congrArg Setup.client hset⟩
  cases hp : room.processed c with
  | some m =>
    have hs : sets c = false := by cases c <;> first | rfl | cases hp
    exact absurd (h (hsame hs).1).1 (processed_client hp)
  | none =>
    cases c with
    | init ip port thread audio video =>
      revert hi
      simp only [LiveMeetingRoom.step, LiveMeetingRoom.init]
      cases room.m_initialized <;> cases thread <;> cases audio <;> cases video <;>
        first | exact fun _ => ⟨rfl, rfl⟩ | exact fun hi => by cases hi
    | un_init => exact ⟨rfl, rfl⟩
    | set_event_callback_func func => exact h hi
    | message json env =>
      rw [message_unprocessed hp]
      exact h (hsame rfl).1
    | receive arrived =>
      obtain ⟨hclient, husers⟩ := h (hsame rfl).1
      refine ⟨(hsame rfl).2.trans hclient, ?_⟩
      simp only [LiveMeetingRoom.step, receive_round]
      split
      · simp [husers]
      · exact husers
    | _ =>
      obtain ⟨hclient, husers⟩ := h (hsame rfl).1
      exact ⟨(hsame rfl).2.trans hclient, ((frames_step rfl).users room).trans husers⟩

/-! ## The users that are known -/

/-- The event callback is set when a message is processed. -/
def Watched (room : LiveMeetingRoom) (c : Call) : Prop :=
  (room.processed c).isSome = true → room.m_event_callback_func = true

instance (room : LiveMeetingRoom) (c : Call) : Decidable (room.Watched c) :=
  inferInstanceAs (Decidable (_ → _))

/-- The application knows the users of the room. -/
def Known (room : LiveMeetingRoom) (known : Finset Bytes) : Prop :=
  ∀ uuid, uuid ∈ known ↔ (room.user uuid).isSome = true

/-- An event tells what its message does to the users. -/
theorem eventOf_user (room : LiveMeetingRoom) (opcode : Int) (params : JsonObject) (env : MessageEnv)
    {known : Finset Bytes} {uuid : Bytes} {u : Option RoomUser} (h : uuid ∈ known ↔ u.isSome = true) :
    uuid ∈ ((eventOf opcode params).elim known (fun event => event.update known)) ↔
      (room.userAfterMessage uuid opcode params env u).isSome = true := by
  have hor (users : List OnlineUser) : uuid ∈ known ∪ (users.map OnlineUser.userUUID).toFinset ↔
      (u.or ((users.find? (fun user => user.userUUID = uuid)).map room.newUser)).isSome = true := by
    simp [h, List.find?_isSome]
  have hd := room.dispatched opcode params env
  generalize (room.on_ws_message opcode params env).1 = room' at hd
  cases hd with
  | create | join | stop_pulling =>
    change uuid ∈ known ↔ (u.or none).isSome = true
    rwa [Option.or_none]
  | new_joined =>
    have hone : insert (read_online_user params).userUUID known =
        known ∪ ([read_online_user params].map OnlineUser.userUUID).toFinset := by
      rw [Finset.union_comm]
      rfl
    exact (iff_of_eq (congrArg (uuid ∈ ·) hone)).trans (hor _)
  | pull_stream =>
    change uuid ∈ known ↔ (u.map (pullStreams uuid params env)).isSome = true
    rwa [Option.isSome_map]
  | user_gone =>
    change uuid ∈ known.erase (params.get (ascii "user_uuid")).as_string ↔
      (if (params.get (ascii "user_uuid")).as_string = uuid then none else u).isSome = true
    rw [Finset.mem_erase]
    split
    · rename_i he
      exact iff_of_false (fun hm => hm.1 he.symm) (by simp)
    · rename_i he
      exact (and_iff_right (Ne.symm he)).trans h
  | exit | stop | closing => exact iff_of_false (Finset.notMem_empty _) (by simp [userAfterMessage, leaves])
  | online_users => exact hor _
  | other hne =>
    simp only [List.mem_cons, List.not_mem_nil, or_false, not_or] at hne
    simpa [eventOf, userAfterMessage, leaves, announced, hne] using h

/-- What a message tells the application. -/
theorem told_message (room : LiveMeetingRoom) (known : Finset Bytes) (json : Option JsonObject) (env : MessageEnv) :
    told known (.message json env, (room.step (.message json env)).2) =
      ((room.processed (.message json env)).bind (fun m => (eventOf m.1 m.2.1).bind room.notify)).elim known
        (fun event => event.update known) := by
  cases hc : room.m_websocket_client with
  | none => simp [step, processed, hc, told]
  | some client =>
    cases hread : json.bind read_message with
    | none => simp [step, processed, on_websocket_message, hc, hread, told]
    | some m =>
      obtain ⟨opcode, params⟩ := m
      simp only [step, processed, on_websocket_message, hc, hread, Option.isSome_some, if_true, Option.map_some,
        Option.bind_some, event_on_ws_message]
      cases (eventOf opcode params).bind room.notify <;> rfl

theorem Watched.notify {room : LiveMeetingRoom} {c : Call} (h : room.Watched c)
    {m : Int × JsonObject × MessageEnv} (hp : room.processed c = some m) : room.notify = some := by
  have hcb := h (hp ▸ rfl)
  funext event
  rw [LiveMeetingRoom.notify, if_pos hcb]

/-- The application goes on knowing the users. -/
theorem Known.step {room : LiveMeetingRoom} {known : Finset Bytes} (h : room.Known known) (hi : room.Off) {c : Call}
    (hw : room.Watched c) : (room.step c).1.Known (told known (c, (room.step c).2)) := by
  intro uuid
  rw [user_step]
  cases c with
  | init ip port thread audio video =>
    refine iff_of_false (Finset.notMem_empty uuid) ?_
    simp only [userAfter, processed]
    split_ifs with hinit
    · simp
    · rw [Bool.or_eq_true, not_or, Bool.not_eq_true] at hinit
      have husers := (hi hinit.1).2
      simp [LiveMeetingRoom.user, husers]
  | un_init => exact iff_of_false (Finset.notMem_empty uuid) (by simp [userAfter, processed])
  | message json env =>
    rw [told_message]
    unfold userAfter
    cases hp : room.processed (.message json env) with
    | none => exact h uuid
    | some m =>
      obtain ⟨opcode, params, env'⟩ := m
      rw [Option.bind_some, hw.notify hp, Option.bind_fun_some]
      exact eventOf_user room opcode params env' (h uuid)
  | event e =>
    have htold : told known (.event e, (room.step (.event e)).2) = known := by
      simp only [LiveMeetingRoom.step]
      split <;> rfl
    rw [htold]
    exact h uuid
  | receive arrived =>
    refine (h uuid).trans ?_
    simp only [userAfter, processed]
    split
    · rw [Option.isSome_map]
    · rfl
  | _ => exact h uuid

/-- An application that has set the event callback whenever a message comes knows the users of the room after every
run, and every media callback is for a user it knows. -/
theorem told_users (video_ssrc audio_ssrc : UInt32) (video_push_port audio_push_port : UInt16) {calls : List Call}
    (h : Along step Watched (new video_ssrc audio_ssrc video_push_port audio_push_port) calls) :
    let start := new video_ssrc audio_ssrc video_push_port audio_push_port
    let known := (trace step start calls).foldl told ∅
    (∀ uuid, uuid ∈ known ↔ ((final step start calls).user uuid).isSome = true) ∧
      ∀ c uuid, heard uuid ((final step start calls).step c).2 ≠ [] → uuid ∈ known := by
  intro start known
  have hstart : start.Known ∅ := fun uuid =>
    iff_of_false (Finset.notMem_empty uuid) (by simp [LiveMeetingRoom.user, start, new])
  have hrun : (final step start calls).Named ∧ (final step start calls).Off ∧ (final step start calls).Known known :=
    Along.rule step (h := []) (fun room history => room.Named ∧ room.Off ∧ room.Known (history.foldl told ∅))
      (fun room history c hp hw => ⟨hp.1.step c, hp.2.1.step c, by
        rw [List.foldl_append]
        exact hp.2.2.step hp.2.1 hw⟩) h
      ⟨new_named _ _ _ _, fun _ => ⟨rfl, rfl⟩, hstart⟩
  obtain ⟨hnamed, -, hknown⟩ := hrun
  refine ⟨hknown, fun c uuid hheard => (hknown uuid).2 ?_⟩
  rw [heard_step hnamed] at hheard
  rw [Option.isSome_iff_ne_none]
  intro hu
  rw [hu] at hheard
  cases hround : (final step start calls).round uuid c <;> rw [hround] at hheard <;> exact hheard rfl

/-- The callback is set, then the user `b1` joins and its streams are pulled. -/
theorem told_users_pulled :
    let known := (trace step (new 0 0 0 0) (.set_event_callback_func true :: pulled)).foldl told ∅
    let room := final step (new 0 0 0 0) (.set_event_callback_func true :: pulled)
    (∀ uuid, uuid ∈ known ↔ (room.user uuid).isSome = true) ∧
      ∀ c uuid, heard uuid (room.step c).2 ≠ [] → uuid ∈ known :=
  told_users 0 0 0 0 (by decide +kernel)

end LiveMeetingRoom

end RtcClient
