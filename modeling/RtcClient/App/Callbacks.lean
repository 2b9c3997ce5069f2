import RtcClient.App.Users
/-!
# The callbacks of one user

A round of the receive thread makes the callbacks of all users. Those of one user are what
its object makes of its own datagrams (`heard_step`). Runs that differ in the datagrams and
the notices of other users have the same callbacks for it (`users_isolated`), and while it is
in the room they are those of its two receivers alone (`room_receives`).
-/

namespace RtcClient

open Lib

namespace RoomUser

/-! ## The uuid -/

theorem init_uuid (u : RoomUser) (ip : Bytes) (port : Nat) (ssrc : UInt32) (env : ReceiverEnv) :
    (u.init ip port ssrc env).1.m_user_uuid = u.m_user_uuid := by
  unfold init initialize_video initialize_audio
  dsimp only
  split_ifs <;> first | rfl | (split <;> rfl)

theorem setUp_uuid (u : RoomUser) (ssrcsJson : JsonObject) (env : Nat → ReceiverEnv) :
    (u.setUp ssrcsJson env).m_user_uuid = u.m_user_uuid :=
  foldl_keeps m_user_uuid (fun u j => u.init_uuid _ _ _ (env j)) _ u

/-- The callback of a packet names the user, which stays as it is. -/
theorem process_video_uuid (u : RoomUser) (rtp : RTPPacket) :
    (u.process_video rtp).1.m_user_uuid = u.m_user_uuid ∧
      ∀ d, (u.process_video rtp).2 = some d → d.uuid = u.m_user_uuid := by
  unfold process_video
  split
  · exact ⟨rfl, fun _ h => by cases h⟩
  · dsimp only
    split
    · split
      · refine ⟨rfl, fun d h => ?_⟩
        dsimp only at h
        split at h
        · cases h
          rfl
        · cases h
      · exact ⟨rfl, fun _ h => by cases h⟩
    · exact ⟨rfl, fun _ h => by cases h⟩

theorem receive_video_uuid (u : RoomUser) (arrived : Buffer) :
    (u.receive_video arrived).1.m_user_uuid = u.m_user_uuid ∧
      ∀ d, (u.receive_video arrived).2 = some d → d.uuid = u.m_user_uuid := by
  unfold receive_video
  split
  · exact ⟨rfl, fun _ h => by cases h⟩
  · dsimp only
    split
    · exact ⟨rfl, fun _ h => by cases h⟩
    · exact process_video_uuid _ _

theorem receive_audio_uuid (u : RoomUser) (arrived : Buffer) :
    (u.receive_audio arrived).1.m_user_uuid = u.m_user_uuid ∧
      ∀ d, (u.receive_audio arrived).2 = some d → d.uuid = u.m_user_uuid := by
  unfold receive_audio
  split
  · exact ⟨rfl, fun _ h => by cases h⟩
  · dsimp only
    split
    · exact ⟨rfl, fun _ h => by cases h⟩
    · refine ⟨rfl, fun d h => ?_⟩
      dsimp only at h
      split at h
      · cases h
        rfl
      · cases h

/-! ## Two receivers -/

/-- What `receive_video` does has nothing to do with the audio receiver. -/
theorem receive_video_audio (u : RoomUser) (r : Option RTPSessionReceiver) (arrived : Buffer) :
    receive_video { u with m_audio_receiver := r } arrived =
      ({ (u.receive_video arrived).1 with m_audio_receiver := r }, (u.receive_video arrived).2) := by
  have hprocess (v : RoomUser) (q : RTPPacket) : process_video { v with m_audio_receiver := r } q =
      ({ (v.process_video q).1 with m_audio_receiver := r }, (v.process_video q).2) := by
    cases h : v.m_h264_frame_assembler with
    | none => simp only [process_video, h]
    | some a =>
      rcases hpush : a.push_packet q with ⟨a', complete⟩
      cases complete with
      | false => simp only [process_video, h, hpush, Bool.false_eq_true, if_false]
      | true => cases hmark : q.m_marker <;> simp [process_video, h, hpush, hmark]
  cases h : u.m_major_receiver with
  | none => simp only [receive_video, h]
  | some receiver =>
    rcases hcall : receiver.receive_rtp_packet 5 arrived with ⟨receiver', rtp⟩
    cases rtp with
    | none => simp only [receive_video, h, hcall]
    | some q =>
      simp only [receive_video, h, hcall]
      exact hprocess { u with m_major_receiver := some receiver' } q

/-- `receive_audio` changes its receiver alone, and what it does depends on that, the callback and the uuid. -/
theorem receive_audio_other {u v : RoomUser} (hr : u.m_audio_receiver = v.m_audio_receiver)
    (hcb : u.m_aac_callback = v.m_aac_callback) (hu : u.m_user_uuid = v.m_user_uuid) (arrived : Buffer) :
    (u.receive_audio arrived).1 = { u with m_audio_receiver := (v.receive_audio arrived).1.m_audio_receiver } ∧
      (u.receive_audio arrived).2 = (v.receive_audio arrived).2 := by
  cases h : v.m_audio_receiver with
  | none =>
    have hu' : u.m_audio_receiver = none := hr.trans h
    refine ⟨?_, ?_⟩ <;> simp only [receive_audio, hu', h]
    rw [← hu']
  | some receiver =>
    have hu' : u.m_audio_receiver = some receiver := hr.trans h
    rcases hcall : receiver.receive_rtp_packet 5 arrived with ⟨receiver', rtp⟩
    cases rtp <;> simp only [receive_audio, hu', h, hcall, hcb, hu, and_self]

/-- One object in place of two: it has the audio receiver of one and all else of the other. -/
structure Joins (u ua uv : RoomUser) : Prop where
  eq : u = { uv with m_audio_receiver := ua.m_audio_receiver }
  callback : ua.m_aac_callback = uv.m_aac_callback
  uuid : ua.m_user_uuid = uv.m_user_uuid

/-- `receive_video` changes its receiver, its assembler and the buffer of the access unit. -/
theorem receive_video_keeps {X : Type} (g : RoomUser → X)
    (hg : ∀ (u : RoomUser) receiver assembler buffer used, g { u with
      m_major_receiver := receiver
      m_h264_frame_assembler := assembler
      m_h264_rtp_buffer := buffer
      m_h264_rtp_buffer_used_len := used } = g u) (u : RoomUser) (arrived : Buffer) :
    g (u.receive_video arrived).1 = g u := by
  unfold receive_video
  split
  · rfl
  · dsimp only
    split
    · exact hg u _ u.m_h264_frame_assembler u.m_h264_rtp_buffer u.m_h264_rtp_buffer_used_len
    · unfold process_video
      split
      · exact hg u _ u.m_h264_frame_assembler u.m_h264_rtp_buffer u.m_h264_rtp_buffer_used_len
      · dsimp only
        split
        · split <;> exact hg u _ _ _ _
        · exact hg u _ _ u.m_h264_rtp_buffer u.m_h264_rtp_buffer_used_len

theorem receive_audio_keeps {X : Type} (g : RoomUser → X)
    (hg : ∀ (u : RoomUser) receiver, g { u with m_audio_receiver := receiver } = g u) (u : RoomUser)
    (arrived : Buffer) : g (u.receive_audio arrived).1 = g u := by
  unfold receive_audio
  split
  · rfl
  · dsimp only
    split <;> exact hg u _

theorem Joins.step {u ua uv : RoomUser} (h : Joins u ua uv) (arrived : Buffer × Buffer) :
    Joins (u.receive arrived).1 (ua.receive_audio arrived.1).1 (uv.receive_video arrived.2).1 ∧
      (u.receive arrived).2 = (ua.receive_audio arrived.1).2.toList ++ (uv.receive_video arrived.2).2.toList := by
  obtain ⟨rfl, hcb, huuid⟩ := h
  obtain ⟨haudio, hheard⟩ := receive_audio_other (u := { uv with m_audio_receiver := ua.m_audio_receiver }) (v := ua)
    rfl hcb.symm huuid.symm arrived.1
  have hvideo := uv.receive_video_audio (ua.receive_audio arrived.1).1.m_audio_receiver arrived.2
  unfold receive
  dsimp only
  rw [haudio, hheard, hvideo]
  exact ⟨⟨rfl, (receive_audio_keeps _ (fun _ _ => rfl) ua _).trans
    (hcb.trans (receive_video_keeps _ (fun _ _ _ _ _ => rfl) uv _).symm),
    (ua.receive_audio_uuid _).1.trans (huuid.trans (uv.receive_video_uuid _).1.symm)⟩, rfl⟩

/-- The rounds of one user are rounds of its two receivers, each for itself. -/
theorem receive_trace (rounds : List (Buffer × Buffer)) :
    ∀ {u ua uv : RoomUser}, Joins u ua uv →
      (trace receive u rounds).flatMap (·.2) =
        (List.zipWith (fun a v : Option Delivery => a.toList ++ v.toList)
          ((trace receive_audio ua (rounds.map (·.1))).map (·.2))
          ((trace receive_video uv (rounds.map (·.2))).map (·.2))).flatten := by
  induction rounds with
  | nil => intro u ua uv _; rfl
  | cons r rounds ih =>
    intro u ua uv h
    obtain ⟨hnext, hout⟩ := h.step r
    simp only [trace_cons, List.map_cons, List.flatMap_cons, List.zipWith_cons_cons, List.flatten_cons]
    rw [ih hnext, hout]

/-- Both receivers are set up. -/
structure Running (u : RoomUser) : Prop where
  video : u.m_video_initialize = true
  audio : u.m_audio_initialize = true

/-- No stream sets up a receiver again. -/
theorem Running.setUp {u : RoomUser} (h : u.Running) (ssrcsJson : JsonObject) (env : Nat → ReceiverEnv) :
    u.setUp ssrcsJson env = u := by
  refine List.foldl_fixed' (fun j => ?_) _
  simp only [init, initialize_video, initialize_audio, h.video, h.audio, if_true]
  split_ifs <;> rfl

theorem Running.receive {u : RoomUser} (h : u.Running) (arrived : Buffer × Buffer) : (u.receive arrived).1.Running where
  video := (receive_video_keeps _ (fun _ _ _ _ _ => rfl) _ _).trans
    ((receive_audio_keeps _ (fun _ _ => rfl) u _).trans h.video)
  audio := (receive_video_keeps _ (fun _ _ _ _ _ => rfl) _ _).trans
    ((receive_audio_keeps _ (fun _ _ => rfl) u _).trans h.audio)

theorem receive_uuid (u : RoomUser) (arrived : Buffer × Buffer) :
    (u.receive arrived).1.m_user_uuid = u.m_user_uuid ∧ ∀ d ∈ (u.receive arrived).2, d.uuid = u.m_user_uuid := by
  obtain ⟨haudio, hheard⟩ := u.receive_audio_uuid arrived.1
  obtain ⟨hvideo, hseen⟩ := (u.receive_audio arrived.1).1.receive_video_uuid arrived.2
  refine ⟨hvideo.trans haudio, fun d hd => ?_⟩
  rcases List.mem_append.1 hd with hd | hd
  · exact hheard d (by simpa using hd)
  · exact (hseen d (by simpa using hd)).trans haudio

end RoomUser

namespace LiveMeetingRoom

/-! ## Users and their names -/

/-- Each user is under its own uuid, and there once. -/
structure Named (room : LiveMeetingRoom) : Prop where
  sorted : Assoc.Sorted room.m_other_users_map
  uuid : ∀ uuid u, room.user uuid = some u → u.m_user_uuid = uuid

theorem pullStreams_uuid (uuid : Bytes) (params : JsonObject) (env : MessageEnv) (u : RoomUser) :
    (pullStreams uuid params env u).m_user_uuid = u.m_user_uuid := by
  unfold pullStreams
  have hkeep : ∀ (u : RoomUser) (s : JsonObject × (Nat → ReceiverEnv)), (u.setUp s.1 s.2).m_user_uuid = u.m_user_uuid :=
    fun u s => u.setUp_uuid s.1 s.2
  exact foldl_keeps RoomUser.m_user_uuid hkeep _ u

theorem userAfter_uuid (room : LiveMeetingRoom) (c : Call) {uuid : Bytes} {o : Option RoomUser}
    (h : ∀ u, o = some u → u.m_user_uuid = uuid) : ∀ u, room.userAfter uuid c o = some u → u.m_user_uuid = uuid := by
  intro u hu
  unfold userAfter at hu
  split at hu
  · rename_i opcode params env hp
    unfold userAfterMessage at hu
    split_ifs at hu
    · exact h u hu
    · obtain ⟨u', hu', rfl⟩ := Option.map_eq_some_iff.1 hu
      exact (pullStreams_uuid uuid params env u').trans (h u' hu')
    · rcases Option.or_eq_some_iff.1 hu with hu | ⟨-, hu⟩
      · exact h u hu
      · obtain ⟨user, huser, rfl⟩ := Option.map_eq_some_iff.1 hu
        have he : user.userUUID = uuid := by simpa using List.find?_some huser
        exact he
  · split at hu
    · split at hu
      · cases hu
      · exact h u hu
    · cases hu
    · rename_i arrived
      split at hu
      · obtain ⟨u', hu', rfl⟩ := Option.map_eq_some_iff.1 hu
        exact (u'.receive_uuid _).1.trans (h u' hu')
      · exact h u hu
    · exact h u hu

theorem sorted_add_other_user {room : LiveMeetingRoom} (h : Assoc.Sorted room.m_other_users_map) (user : OnlineUser) :
    Assoc.Sorted (room.add_other_user user).m_other_users_map := by
  unfold add_other_user
  split
  · exact h
  · exact Assoc.sorted_insert h _ _

theorem sorted_pull_stream_user {room : LiveMeetingRoom} (h : Assoc.Sorted room.m_other_users_map)
    (streamJson : JsonObject) (env : Nat → ReceiverEnv) :
    Assoc.Sorted (room.pull_stream_user streamJson env).m_other_users_map := by
  unfold pull_stream_user
  dsimp only
  split
  · exact h
  · exact Assoc.sorted_insert h _ _

theorem sorted_on_ws_message {room : LiveMeetingRoom} (h : Assoc.Sorted room.m_other_users_map) (opcode : Int)
    (params : JsonObject) (env : MessageEnv) :
    Assoc.Sorted (room.on_ws_message opcode params env).1.m_other_users_map := by
  have hd := room.dispatched opcode params env
  generalize (room.on_ws_message opcode params env).1 = room' at hd ⊢
  cases hd with
  | create => rwa [(frames_on_ws_conference_create params env).users room]
  | join => rwa [(frames_on_ws_conference_join params env).users room]
  | new_joined => exact sorted_add_other_user h _
  | pull_stream =>
    exact List.foldlRecOn (motive := fun r => Assoc.Sorted (m_other_users_map r)) _ _ h
      (fun r hr _ _ => sorted_pull_stream_user hr _ _)
  | user_gone => exact List.Pairwise.filter _ h
  | online_users =>
    exact List.foldlRecOn (motive := fun r => Assoc.Sorted (m_other_users_map r)) _ _ h
      (fun r hr _ _ => sorted_add_other_user hr _)
  | exit | stop | closing => exact .nil
  | stop_pulling | other => exact h

theorem sorted_step {room : LiveMeetingRoom} (h : Assoc.Sorted room.m_other_users_map) (c : Call) :
    Assoc.Sorted (room.step c).1.m_other_users_map := by
  cases c with
  | init ip port thread audio video =>
    simp only [step, init]
    cases room.m_initialized <;> cases thread <;> cases audio <;> cases video <;> first | exact h | exact .nil
  | un_init => exact .nil
  | message json env =>
    cases hp : room.processed (.message json env) with
    | none => rwa [message_unprocessed hp]
    | some m =>
      obtain ⟨opcode, params, env⟩ := m
      rw [step_processed room hp]
      exact sorted_on_ws_message h opcode params env
  | receive arrived =>
    simp only [step, receive_round]
    split
    · rw [List.map_map]
      exact List.pairwise_map.2 h
    · exact h
  | _ => rwa [(frames_step rfl).users room]

theorem Named.step {room : LiveMeetingRoom} (h : room.Named) (c : Call) : (room.step c).1.Named := by
  refine ⟨sorted_step h.sorted c, fun uuid => ?_⟩
  rw [user_step]
  exact userAfter_uuid room c (h.uuid uuid)

theorem new_named (video_ssrc audio_ssrc : UInt32) (video_push_port audio_push_port : UInt16) :
    (new video_ssrc audio_ssrc video_push_port audio_push_port).Named :=
  ⟨.nil, fun _ _ h => by cases h⟩

/-! ## Whose callbacks they are -/

/-- The callbacks made for a user. -/
def heard (uuid : Bytes) : Output → List Delivery
  | .deliveries received => received.filter (fun d => d.uuid = uuid)
  | _ => []

/-- The datagrams a call lets a user receive. -/
def round (room : LiveMeetingRoom) (uuid : Bytes) : Call → Option (Buffer × Buffer)
  | .receive arrived => if room.m_receive_thread_running then some (arrived uuid) else none
  | _ => none

/-- In a round each user receives its own datagrams. -/
theorem heard_receive_round {room : LiveMeetingRoom} (h : room.Named) (arrived : Bytes → Buffer × Buffer)
    (uuid : Bytes) (hr : room.m_receive_thread_running = true) :
    (room.receive_round arrived).2.filter (fun d => d.uuid = uuid) =
      ((room.user uuid).map (fun u => (u.receive (arrived uuid)).2)).getD [] := by
  have hround : (room.receive_round arrived).2 =
      room.m_other_users_map.flatMap (fun e => (e.2.receive (arrived e.1)).2) := by
    rw [receive_round, if_pos hr]
    dsimp only
    rw [List.flatMap_map]
    rfl
  rw [hround]
  refine Assoc.filter_flatMap_key Delivery.uuid _ h.sorted.nodup (fun e he d hd => ?_) uuid
  have hfind : room.user e.1 = some e.2 := Assoc.find_of_mem h.sorted.nodup he
  rw [(e.2.receive_uuid _).2 d hd, h.uuid _ _ hfind]

/-- The callbacks a call makes for a user are those its object makes of its datagrams. -/
theorem heard_step {room : LiveMeetingRoom} (h : room.Named) (c : Call) (uuid : Bytes) :
    heard uuid (room.step c).2 =
      ((room.round uuid c).bind (fun arrived => (room.user uuid).map (fun u => (u.receive arrived).2))).getD [] := by
  cases c with
  | receive arrived =>
    simp only [step, heard, round]
    cases hr : room.m_receive_thread_running with
    | true => exact heard_receive_round h arrived uuid hr
    | false =>
      rw [receive_round, hr]
      rfl
  | message | event =>
    simp only [step, round]
    split <;> rfl
  | _ => rfl

/-! ## Calls that are the same for a user -/

/-- A notice that another user has come or gone, or a text that is no message. -/
def Aside (uuid : Bytes) (json : Option JsonObject) : Prop :=
  ∀ opcode params, json.bind read_message = some (opcode, params) →
    (opcode = TYPE_CONFERENCE_NEW_JOINED ∨ opcode = TYPE_CONFERENCE_USER_GONE) ∧
      (params.get (ascii "user_uuid")).as_string ≠ uuid

instance (uuid : Bytes) (json : Option JsonObject) : Decidable (Aside uuid json) :=
  decidable_of_iff (∀ m ∈ json.bind read_message,
    (m.1 = TYPE_CONFERENCE_NEW_JOINED ∨ m.1 = TYPE_CONFERENCE_USER_GONE) ∧
      (m.2.get (ascii "user_uuid")).as_string ≠ uuid) Prod.forall

/-- Calls that may differ in what arrives for other users and in what messages say about them. -/
inductive SameFor (uuid : Bytes) : Call → Call → Prop where
  | same (c : Call) : SameFor uuid c c
  | receive {arrived arrived' : Bytes → Buffer × Buffer} (h : arrived uuid = arrived' uuid) :
    SameFor uuid (.receive arrived) (.receive arrived')
  | notices {json json' : Option JsonObject} (env env' : MessageEnv) (h : Aside uuid json) (h' : Aside uuid json') :
    SameFor uuid (.message json env) (.message json' env')
  | streams {json json' : Option JsonObject} {params params' : JsonObject} {env env' : MessageEnv}
    (h : json.bind read_message = some (TYPE_CONFERENCE_PULL_STREAM, params))
    (h' : json'.bind read_message = some (TYPE_CONFERENCE_PULL_STREAM, params'))
    (hs : streamsOf uuid params env = streamsOf uuid params' env') :
    SameFor uuid (.message json env) (.message json' env')
  | listings {json json' : Option JsonObject} {params params' : JsonObject} (env env' : MessageEnv)
    (h : json.bind read_message = some (TYPE_CONFERENCE_ONLINE_USERS, params))
    (h' : json'.bind read_message = some (TYPE_CONFERENCE_ONLINE_USERS, params'))
    (hs : (announced TYPE_CONFERENCE_ONLINE_USERS params).find? (fun user => user.userUUID = uuid) =
      (announced TYPE_CONFERENCE_ONLINE_USERS params').find? (fun user => user.userUUID = uuid)) :
    SameFor uuid (.message json env) (.message json' env')

theorem step_message {json : Option JsonObject} {opcode : Int} {params : JsonObject}
    (h : json.bind read_message = some (opcode, params)) (room : LiveMeetingRoom) (env : MessageEnv) :
    (room.step (.message json env)).1 =
      if room.m_websocket_client.isSome then (room.on_ws_message opcode params env).1 else room := by
  simp only [step, on_websocket_message, h]
  split <;> rfl

theorem userAfter_message {json : Option JsonObject} {opcode : Int} {params : JsonObject}
    (h : json.bind read_message = some (opcode, params)) (room : LiveMeetingRoom) (uuid : Bytes) (env : MessageEnv)
    (u : Option RoomUser) :
    room.userAfter uuid (.message json env) u =
      if room.m_websocket_client.isSome then room.userAfterMessage uuid opcode params env u else u := by
  cases hc : room.m_websocket_client <;> simp [userAfter, processed, h, hc]

theorem processed_unread {json : Option JsonObject} (h : json.bind read_message = none) (room : LiveMeetingRoom)
    (env : MessageEnv) : room.processed (.message json env) = none := by
  simp [processed, h]

theorem Aside.core {uuid : Bytes} {json : Option JsonObject} (h : Aside uuid json) (room : LiveMeetingRoom)
    (env : MessageEnv) : (room.step (.message json env)).1.core = room.core := by
  cases hread : json.bind read_message with
  | none => rw [message_unprocessed (processed_unread hread room env)]
  | some m =>
    obtain ⟨opcode, params⟩ := m
    rw [step_message hread]
    split
    · obtain ⟨rfl | rfl, -⟩ := h opcode params hread
      · exact core_add_other_user room _
      · rfl
    · rfl

theorem Aside.userAfter {uuid : Bytes} {json : Option JsonObject} (h : Aside uuid json) (room : LiveMeetingRoom)
    (env : MessageEnv) (u : Option RoomUser) : room.userAfter uuid (.message json env) u = u := by
  cases hread : json.bind read_message with
  | none => simp [LiveMeetingRoom.userAfter, processed_unread hread]
  | some m =>
    obtain ⟨opcode, params⟩ := m
    rw [userAfter_message hread]
    split
    · obtain ⟨rfl | rfl, hne⟩ := h opcode params hread
      · have hfind : (announced TYPE_CONFERENCE_NEW_JOINED params).find? (fun user => user.userUUID = uuid) = none := by
          simpa [announced, read_online_user] using hne
        exact (congrArg (fun o => u.or (o.map room.newUser)) hfind).trans Option.or_none
      · exact if_neg hne
    · rfl

/-- Such calls leave the other fields of a room the same. -/
theorem SameFor.core {uuid : Bytes} {c c' : Call} (h : SameFor uuid c c') (room : LiveMeetingRoom) :
    (room.step c).1.core = (room.step c').1.core := by
  cases h with
  | same => rfl
  | receive => exact (core_receive_round room _).trans (core_receive_round room _).symm
  | notices env env' h h' => rw [h.core, h'.core]
  | streams h h' =>
    rw [step_message h, step_message h']
    split
    · exact (core_pull_stream room _ _).trans (core_pull_stream room _ _).symm
    · rfl
  | listings env env' h h' =>
    rw [step_message h, step_message h']
    split
    · exact (core_online_users room _).trans (core_online_users room _).symm
    · rfl

/-- Such calls do the same to the user. -/
theorem SameFor.userAfter {uuid : Bytes} {c c' : Call} (h : SameFor uuid c c') (room : LiveMeetingRoom)
    (u : Option RoomUser) : room.userAfter uuid c u = room.userAfter uuid c' u := by
  cases h with
  | same => rfl
  | receive h => simp only [LiveMeetingRoom.userAfter, processed, h]
  | notices env env' h h' => rw [h.userAfter, h'.userAfter]
  | @streams _ _ params params' env env' h h' hs =>
    rw [userAfter_message h, userAfter_message h']
    split
    · have hp : pullStreams uuid params env = pullStreams uuid params' env' := by
        funext u
        rw [pullStreams, hs, pullStreams]
      exact congrArg (Option.map · u) hp
    · rfl
  | listings env env' h h' hs =>
    rw [userAfter_message h, userAfter_message h']
    split
    · exact congrArg (fun o => u.or (o.map room.newUser)) hs
    · rfl

/-- Such calls bring the user the same datagrams. -/
theorem SameFor.round {uuid : Bytes} {c c' : Call} (h : SameFor uuid c c') (room : LiveMeetingRoom) :
    room.round uuid c = room.round uuid c' := by
  cases h with
  | receive h => simp only [LiveMeetingRoom.round, h]
  | _ => rfl

/-- What two runs have in common for a user. -/
structure Alike (uuid : Bytes) (room room' : LiveMeetingRoom) : Prop where
  core : room.core = room'.core
  user : room.user uuid = room'.user uuid
  named : room.Named
  named' : room'.Named

theorem round_core (room : LiveMeetingRoom) (uuid : Bytes) (c : Call) : room.core.round uuid c = room.round uuid c := by
  cases c <;> rfl

theorem Alike.step {uuid : Bytes} {room room' : LiveMeetingRoom} (h : Alike uuid room room') {c c' : Call}
    (hc : SameFor uuid c c') :
    Alike uuid (room.step c).1 (room'.step c').1 ∧ heard uuid (room.step c).2 = heard uuid (room'.step c').2 := by
  refine ⟨⟨?_, ?_, h.named.step c, h.named'.step c'⟩, ?_⟩
  · rw [core_step, h.core, hc.core, ← core_step]
  · rw [user_step, user_step, ← userAfter_core, h.core, hc.userAfter, userAfter_core, h.user]
  · rw [heard_step h.named, heard_step h.named', ← round_core, h.core, hc.round, round_core, h.user]

/-- Users do not interfere. What arrives for other users, what their pull streams set up, and the notices that they
come or go, make no difference to the callbacks for a user, nor to its object. -/
theorem users_isolated (video_ssrc audio_ssrc : UInt32) (video_push_port audio_push_port : UInt16) (uuid : Bytes)
    {calls calls' : List Call} (h : List.Forall₂ (SameFor uuid) calls calls') :
    let room := new video_ssrc audio_ssrc video_push_port audio_push_port
    (trace step room calls).map (fun r => heard uuid r.2) = (trace step room calls').map (fun r => heard uuid r.2) ∧
      (final step room calls).user uuid = (final step room calls').user uuid := by
  intro room
  have hnamed := new_named video_ssrc audio_ssrc video_push_port audio_push_port
  obtain ⟨hfinal, hheard⟩ := alike_runs_rule step (heard uuid) (Alike uuid) (fun _ _ _ _ h hc => h.step hc)
    (⟨rfl, rfl, hnamed, hnamed⟩ : Alike uuid room room) h
  exact ⟨hheard, hfinal.user⟩

/-- The notice that a user has joined, with SSRCs 5 and 6. -/
def joinedNotice (uuid : Bytes) : Call :=
  .message (some (app_response_json (ascii "200") (ascii "OK") TYPE_CONFERENCE_NEW_JOINED (ascii "7") [
    (ascii "conference_id", ascii "100"), (ascii "user_uuid", uuid), (ascii "video_ssrc", ascii "5"),
    (ascii "audio_ssrc", ascii "6")])) sampleEnv

/-- The user `b1` joins; then `c1` does, and receives a datagram, or a text arrives that is no message. -/
def afterBob (carol : Bool) : List Call :=
  [.init (ascii "10.0.0.1") 8080 true true true, created 100, joinedNotice (ascii "b1"),
    if carol then joinedNotice (ascii "c1") else .message none sampleEnv,
    .receive (fun uuid => if carol && uuid = ascii "c1" then (⟨[0x80], []⟩, .null) else (.null, .null))]

theorem afterBob_same : List.Forall₂ (SameFor (ascii "b1")) (afterBob true) (afterBob false) :=
  .cons (.same _) (.cons (.same _) (.cons (.same _) (.cons
    (.notices sampleEnv sampleEnv (by decide +kernel) (by decide +kernel)) (.cons (.receive rfl) .nil))))

theorem users_isolated_carol :
    (trace step (new 0 0 0 0) (afterBob true)).map (fun r => heard (ascii "b1") r.2) =
        (trace step (new 0 0 0 0) (afterBob false)).map (fun r => heard (ascii "b1") r.2) ∧
      (final step (new 0 0 0 0) (afterBob true)).user (ascii "b1") =
        (final step (new 0 0 0 0) (afterBob false)).user (ascii "b1") :=
  users_isolated 0 0 0 0 (ascii "b1") afterBob_same

/-! ## One user through the room -/

/-- The datagrams that the calls let a user receive, round by round. -/
def rounds (uuid : Bytes) (room : LiveMeetingRoom) : List Call → List (Buffer × Buffer)
  | [] => []
  | c :: calls => (room.round uuid c).toList ++ rounds uuid (room.step c).1 calls

theorem pullStreams_running {u : RoomUser} (h : u.Running) (uuid : Bytes) (params : JsonObject) (env : MessageEnv) :
    pullStreams uuid params env u = u :=
  List.foldl_fixed' (fun _ => h.setUp _ _) _

theorem userAfterMessage_running {u : RoomUser} (h : u.Running) (room : LiveMeetingRoom) (uuid : Bytes) (opcode : Int)
    (params : JsonObject) (env : MessageEnv) (hstay : room.userAfterMessage uuid opcode params env (some u) ≠ none) :
    room.userAfterMessage uuid opcode params env (some u) = some u := by
  unfold userAfterMessage at hstay ⊢
  split_ifs at hstay ⊢
  · exact absurd rfl hstay
  · exact absurd rfl hstay
  · rfl
  · exact congrArg some (pullStreams_running h uuid params env)
  · rfl

/-- While a user whose receivers run stays in the room, nothing but its rounds changes it. -/
theorem user_stays {room : LiveMeetingRoom} {uuid : Bytes} {u : RoomUser} (hu : room.user uuid = some u)
    (hr : u.Running) (c : Call) (hstay : (room.step c).1.user uuid ≠ none) :
    (room.step c).1.user uuid = some (((room.round uuid c).map (fun arrived => (u.receive arrived).1)).getD u) := by
  rw [user_step, hu] at hstay ⊢
  cases c with
  | init ip port thread audio video =>
    simp only [userAfter, processed] at hstay ⊢
    split_ifs at hstay ⊢
    · exact absurd rfl hstay
    · rfl
  | un_init => exact absurd rfl hstay
  | message json env =>
    unfold userAfter at hstay ⊢
    split at hstay
    · exact userAfterMessage_running hr room uuid _ _ _ hstay
    · rfl
  | receive arrived =>
    simp only [userAfter, processed, round]
    split <;> rfl
  | _ => rfl

/-- The callbacks for it are those of its rounds. -/
theorem heard_run {uuid : Bytes} : ∀ {calls : List Call} {room : LiveMeetingRoom} {u : RoomUser}, room.Named →
    room.user uuid = some u → u.Running → Along step (fun room c => (room.step c).1.user uuid ≠ none) room calls →
      (trace step room calls).flatMap (fun r => heard uuid r.2) =
        (trace RoomUser.receive u (rounds uuid room calls)).flatMap (·.2) := by
  intro calls
  induction calls with
  | nil => intro room u _ _ _ _; rfl
  | cons c calls ih =>
    intro room u hn hu hr hstay
    have hnext := user_stays hu hr c hstay.1
    rw [trace_cons, List.flatMap_cons, heard_step hn, hu, rounds]
    cases hround : room.round uuid c with
    | none =>
      rw [hround] at hnext
      exact ih (hn.step c) hnext hr hstay.2
    | some arrived =>
      rw [hround] at hnext
      rw [ih (hn.step c) hnext (hr.receive arrived) hstay.2]
      rfl

/-- While a user whose receivers run stays in the room, its callbacks are those of the two receivers, round by round,
whatever else happens in the room. -/
theorem room_receives (video_ssrc audio_ssrc : UInt32) (video_push_port audio_push_port : UInt16) (pre : List Call)
    {uuid : Bytes} {u : RoomUser}
    (hu : (final step (new video_ssrc audio_ssrc video_push_port audio_push_port) pre).user uuid = some u)
    (hvideo : u.m_video_initialize = true) (haudio : u.m_audio_initialize = true) {calls : List Call}
    (hstay : Along step (fun room c => (room.step c).1.user uuid ≠ none)
      (final step (new video_ssrc audio_ssrc video_push_port audio_push_port) pre) calls) :
    let room := final step (new video_ssrc audio_ssrc video_push_port audio_push_port) pre
    let rs := rounds uuid room calls
    (trace step room calls).flatMap (fun r => heard uuid r.2) =
      (List.zipWith (fun a v : Option Delivery => a.toList ++ v.toList)
        ((trace RoomUser.receive_audio u (rs.map (·.1))).map (·.2))
        ((trace RoomUser.receive_video u (rs.map (·.2))).map (·.2))).flatten := by
  intro room rs
  have hjoin : RoomUser.Joins u u u := ⟨rfl, rfl, rfl⟩
  rw [← RoomUser.receive_trace rs hjoin]
  exact heard_run (final_rule step Named (fun _ c h => h.step c) (new_named _ _ _ _) pre) hu ⟨hvideo, haudio⟩ hstay

/-- The answer to a pull-stream request: both streams of the user `b1`. -/
def pulledStreams : Call :=
  let ssrc (n : Bytes) : JsonValue :=
    .ofObject (params_json [(ascii "ip", ascii "10.0.0.1"), (ascii "port", ascii "9002"), (ascii "ssrc", n)])
  let ssrcs := JsonObject.setIndex (JsonObject.setIndex {} 0 (ssrc (ascii "5"))) 1 (ssrc (ascii "6"))
  let stream := JsonObject.set (params_json [(ascii "user_uuid", ascii "b1")]) (ascii "ssrcs") (.ofObject ssrcs)
  let streams := JsonObject.setIndex {} 0 (.ofObject stream)
  let answer := app_response_json (ascii "200") (ascii "OK") TYPE_CONFERENCE_PULL_STREAM (ascii "8") []
  .message (some (answer.set (ascii "params") (.ofObject (JsonObject.set {} (ascii "streams") (.ofObject streams)))))
    { sampleEnv with receivers := fun _ _ => ⟨9000, true, .zeros _, .zeros _, .zeros _⟩ }

/-- The user `b1` is in the room and its receivers run. -/
def pulled : List Call :=
  [.init (ascii "10.0.0.1") 8080 true true true, created 100, joinedNotice (ascii "b1"), pulledStreams]

def pulledUser : RoomUser := ((final step (new 0 0 0 0) pulled).user (ascii "b1")).get (by decide +kernel)

/-- A round, a notice, and a round again. -/
def threeCalls : List Call :=
  let arrived (uuid : Bytes) : Buffer × Buffer := if uuid = ascii "b1" then (⟨[0x80, 97], []⟩, .null) else (.null, .null)
  [.receive arrived, joinedNotice (ascii "c1"), .receive arrived]

theorem room_receives_three :
    let room := final step (new 0 0 0 0) pulled
    let rs := rounds (ascii "b1") room threeCalls
    (trace step room threeCalls).flatMap (fun r => heard (ascii "b1") r.2) =
      (List.zipWith (fun a v : Option Delivery => a.toList ++ v.toList)
        ((trace RoomUser.receive_audio pulledUser (rs.map (·.1))).map (·.2))
        ((trace RoomUser.receive_video pulledUser (rs.map (·.2))).map (·.2))).flatten :=
  room_receives 0 0 0 0 pulled (Option.some_get _).symm (by decide +kernel) (by decide +kernel) (by decide +kernel)

end LiveMeetingRoom

end RtcClient
