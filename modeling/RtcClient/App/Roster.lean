import RtcClient.App.Membership
/-!
# The roster

The other users of the room, as their uuids with the pinhole uuid each was given.
`roster_step` says what a call does to them; together with the conference a user
was announced for, which the room does not record, it decides when the roster
belongs to the current membership.
-/

namespace RtcClient

open Lib

namespace LiveMeetingRoom

/-- The uuids of the other users, with their pinhole uuids. -/
def roster (room : LiveMeetingRoom) : List (Bytes × Bytes) :=
  room.m_other_users_map.map (fun e => (e.1, e.2.m_pinhole_uuid))

/-- The users a notification announces. -/
def announced (opcode : Int) (params : JsonObject) : List OnlineUser :=
  if opcode = TYPE_CONFERENCE_NEW_JOINED then [read_online_user params]
  else if opcode = TYPE_CONFERENCE_ONLINE_USERS then
    let onlineUsersJson := (params.get (ascii "online_users")).as_object
    (List.range onlineUsersJson.array_size.toNat).map (fun (i : Nat) =>
      read_online_user (onlineUsersJson.getIndex i).as_object)
  else []

/-- The user is not in the roster. -/
def Unknown (room : LiveMeetingRoom) (uuid : Bytes) : Prop := ∀ x ∈ room.roster, x.1 ≠ uuid

instance (room : LiveMeetingRoom) (uuid : Bytes) : Decidable (room.Unknown uuid) :=
  inferInstanceAs (Decidable (∀ _ ∈ _, _))

theorem unknown_iff (room : LiveMeetingRoom) (uuid : Bytes) :
    room.Unknown uuid ↔ Assoc.find room.m_other_users_map uuid = none := by
  rw [Assoc.find_eq_none]
  exact List.forall_mem_map

/-! ## What a call does to the roster -/

theorem mem_add_other_user (room : LiveMeetingRoom) (user : OnlineUser) (x : Bytes × Bytes) :
    x ∈ (room.add_other_user user).roster ↔
      x ∈ room.roster ∨ (x = (user.userUUID, room.m_my_user_uuid) ∧ room.Unknown user.userUUID) := by
  rw [unknown_iff]
  unfold add_other_user
  split
  · rename_i h
    simp [h]
  · rename_i h
    have hnew := Assoc.find_eq_none.1 h
    simp only [roster, List.mem_map, Assoc.mem_insert_new hnew, h, and_true]
    constructor
    · rintro ⟨e, rfl | he, rfl⟩
      · exact .inr rfl
      · exact .inl ⟨e, he, rfl⟩
    · rintro (⟨e, he, rfl⟩ | rfl)
      · exact ⟨e, .inr he, rfl⟩
      · exact ⟨_, .inl rfl, rfl⟩

theorem unknown_add_other_user (room : LiveMeetingRoom) (user : OnlineUser) (uuid : Bytes) :
    (room.add_other_user user).Unknown uuid ↔ room.Unknown uuid ∧ uuid ≠ user.userUUID := by
  constructor
  · intro h
    have hold : room.Unknown uuid := fun x hx => h x ((mem_add_other_user room user x).2 (.inl hx))
    refine ⟨hold, ?_⟩
    rintro rfl
    exact h _ ((mem_add_other_user room user _).2 (.inr ⟨rfl, hold⟩)) rfl
  · rintro ⟨hold, hne⟩ x hx
    rcases (mem_add_other_user room user x).1 hx with hx | ⟨rfl, -⟩
    · exact hold x hx
    · exact Ne.symm hne

/-- Announced users come in with the own uuid as pinhole uuid, unless they are there. -/
theorem mem_add_other_users (users : List OnlineUser) (room : LiveMeetingRoom) (x : Bytes × Bytes) :
    x ∈ (users.foldl add_other_user room).roster ↔
      x ∈ room.roster ∨ (x.2 = room.m_my_user_uuid ∧ room.Unknown x.1 ∧ x.1 ∈ users.map OnlineUser.userUUID) := by
  induction users generalizing room with
  | nil => simp
  | cons user users ih =>
    have huuid : (room.add_other_user user).m_my_user_uuid = room.m_my_user_uuid :=
      congrArg Membership.user_uuid (add_other_user_membership room user)
    rw [List.foldl_cons, ih, mem_add_other_user, unknown_add_other_user, huuid, List.map_cons, List.mem_cons]
    constructor
    · rintro ((h | ⟨rfl, h⟩) | ⟨h1, ⟨h2, -⟩, h3⟩)
      · exact .inl h
      · exact .inr ⟨rfl, h, .inl rfl⟩
      · exact .inr ⟨h1, h2, .inr h3⟩
    · rintro (h | ⟨h1, h2, h3⟩)
      · exact .inl (.inl h)
      · by_cases hx : x.1 = user.userUUID
        · exact .inl (.inr ⟨Prod.ext hx h1, hx ▸ h2⟩)
        · exact .inr ⟨h1, ⟨h2, hx⟩, h3.resolve_left hx⟩

end LiveMeetingRoom

namespace RoomUser

theorem init_pinhole (u : RoomUser) (ip : Bytes) (port : Nat) (ssrc : UInt32) (env : ReceiverEnv) :
    (u.init ip port ssrc env).1.m_pinhole_uuid = u.m_pinhole_uuid := by
  unfold init initialize_video initialize_audio
  dsimp only
  split_ifs <;> first | rfl | (split <;> rfl)

theorem process_video_pinhole (u : RoomUser) (rtp : RTPPacket) :
    (u.process_video rtp).1.m_pinhole_uuid = u.m_pinhole_uuid := by
  unfold process_video
  split
  · rfl
  · dsimp only
    split
    · split <;> rfl
    · rfl

theorem receive_video_pinhole (u : RoomUser) (arrived : Buffer) :
    (u.receive_video arrived).1.m_pinhole_uuid = u.m_pinhole_uuid := by
  unfold receive_video
  split
  · rfl
  · dsimp only
    split
    · rfl
    · exact process_video_pinhole _ _

theorem receive_audio_pinhole (u : RoomUser) (arrived : Buffer) :
    (u.receive_audio arrived).1.m_pinhole_uuid = u.m_pinhole_uuid := by
  unfold receive_audio
  split
  · rfl
  · dsimp only
    split <;> rfl

end RoomUser

namespace LiveMeetingRoom

theorem pull_stream_user_roster (room : LiveMeetingRoom) (streamJson : JsonObject) (env : Nat → ReceiverEnv) :
    ∀ x ∈ (room.pull_stream_user streamJson env).roster, x ∈ room.roster := by
  unfold pull_stream_user
  dsimp only
  split
  · exact fun x hx => hx
  · rename_i roomUser hfind
    intro x hx
    obtain ⟨e, he, rfl⟩ := List.mem_map.1 hx
    rcases Assoc.mem_of_mem_insert he with rfl | he
    · refine List.mem_map.2 ⟨_, Assoc.mem_of_find hfind, Prod.ext rfl ?_⟩
      exact List.foldlRecOn (motive := fun u => roomUser.m_pinhole_uuid = RoomUser.m_pinhole_uuid u) _ _ rfl
        (fun u hu j _ => hu.trans (u.init_pinhole _ _ _ _).symm)
    · exact List.mem_map.2 ⟨e, he, rfl⟩

theorem on_ws_conference_pull_stream_roster (room : LiveMeetingRoom) (params : JsonObject) (env : MessageEnv) :
    ∀ x ∈ (room.on_ws_conference_pull_stream params env).roster, x ∈ room.roster :=
  List.foldlRecOn (motive := fun r => ∀ x ∈ roster r, x ∈ room.roster) _ _ (fun _ hx => hx)
    (fun r hr _ _ x hx => hr x (r.pull_stream_user_roster _ _ x hx))

theorem receive_round_roster (room : LiveMeetingRoom) (arrived : Bytes → Buffer × Buffer) :
    (room.receive_round arrived).1.roster = room.roster := by
  unfold receive_round
  split
  · simp only [roster, List.map_map]
    refine List.map_congr_left fun e _ => Prod.ext rfl ?_
    exact (RoomUser.receive_video_pinhole _ _).trans (RoomUser.receive_audio_pinhole _ _)
  · rfl

/-- A message the room neither enters nor leaves a conference with keeps the identifiers. -/
theorem identifiers_kept (room : LiveMeetingRoom) (c : Call)
    (h : ∀ opcode params env, room.processed c = some (opcode, params, env) →
      room.enters opcode params = false ∧ leaves opcode = false) :
    (room.step c).1.m_my_room_id = room.m_my_room_id ∧ (room.step c).1.m_my_user_uuid = room.m_my_user_uuid := by
  have hm := room.membership_step c
  have hkeep : (room.membership.act (room.membershipAction c)).room_id = room.m_my_room_id ∧
      (room.membership.act (room.membershipAction c)).user_uuid = room.m_my_user_uuid := by
    unfold membershipAction
    cases hp : room.processed c with
    | some m =>
      obtain ⟨opcode, params, env⟩ := m
      obtain ⟨he, hl⟩ := h opcode params env hp
      dsimp only
      rw [messageMembership, he, hl]
      simp only [Bool.false_eq_true, if_false]
      split <;> exact ⟨rfl, rfl⟩
    | none =>
      dsimp only
      split
      · unfold requestMembership
        split
        · exact ⟨rfl, rfl⟩
        · split <;> exact ⟨rfl, rfl⟩
      · exact ⟨rfl, rfl⟩
  rw [← hm] at hkeep
  exact hkeep

/-- A call processes one message. -/
theorem forall_processed {room : LiveMeetingRoom} {c : Call} {opcode : Int} {params : JsonObject} {env : MessageEnv}
    (hp : room.processed c = some (opcode, params, env)) (P : Int → JsonObject → Prop) :
    (∀ opcode params env, room.processed c = some (opcode, params, env) → P opcode params) ↔ P opcode params := by
  constructor
  · intro h
    exact h opcode params env hp
  · intro h opcode' params' env' hp'
    rw [hp] at hp'
    cases hp'
    exact h

/-- What a call does to the roster. -/
inductive RosterActs (room : LiveMeetingRoom) (c : Call) : Prop where
  | enters (opcode : Int) (params : JsonObject) (env : MessageEnv)
      (hp : room.processed c = some (opcode, params, env)) (he : room.enters opcode params = true)
      (hr : (room.step c).1.roster = room.roster)
  | leaves (opcode : Int) (params : JsonObject) (env : MessageEnv)
      (hp : room.processed c = some (opcode, params, env)) (hl : leaves opcode = true)
      (hr : (room.step c).1.roster = [])
  | announces (opcode : Int) (params : JsonObject) (env : MessageEnv)
      (hp : room.processed c = some (opcode, params, env))
      (ho : opcode = TYPE_CONFERENCE_NEW_JOINED ∨ opcode = TYPE_CONFERENCE_ONLINE_USERS)
      (hr : ∀ x, x ∈ (room.step c).1.roster ↔ x ∈ room.roster ∨ (x.2 = room.m_my_user_uuid ∧ room.Unknown x.1 ∧
        x.1 ∈ (announced opcode params).map OnlineUser.userUUID))
  | shrinks
      (hn : ∀ opcode params env, room.processed c = some (opcode, params, env) →
        room.enters opcode params = false ∧ LiveMeetingRoom.leaves opcode = false ∧ announced opcode params = [])
      (hr : ∀ x ∈ (room.step c).1.roster, x ∈ room.roster)

theorem add_sender_destination_roster (room : LiveMeetingRoom) (videoIP : Bytes) (videoPort videoSeq : UInt16)
    (videoTs videoSSRC : UInt32) (audioIP : Bytes) (audioPort audioSeq : UInt16) (audioTs audioSSRC : UInt32)
    (env : MessageEnv) :
    (room.add_sender_destination videoIP videoPort videoSeq videoTs videoSSRC audioIP audioPort audioSeq audioTs
      audioSSRC env).roster = room.roster := by
  unfold add_sender_destination
  split
  · dsimp only
    split
    · rfl
    split
    · rfl
    split <;> rfl
  · rfl

theorem enter_conference_roster (room : LiveMeetingRoom) (params : JsonObject) (env : MessageEnv) :
    (room.enter_conference params env).roster = room.roster := by
  unfold enter_conference
  dsimp only
  split
  · rw [add_sender_destination_roster]
    rfl
  · exact (add_sender_destination_roster _ _ _ _ _ _ _ _ _ _ _ _).trans rfl

theorem on_ws_conference_join_roster (room : LiveMeetingRoom) (params : JsonObject) (env : MessageEnv) :
    (room.on_ws_conference_join params env).1.roster = room.roster := by
  unfold on_ws_conference_join
  split
  · exact enter_conference_roster room params env
  · rfl

theorem on_ws_message_roster (room : LiveMeetingRoom) {c : Call} {opcode : Int} {params : JsonObject}
    {env : MessageEnv} (hp : room.processed c = some (opcode, params, env))
    (hs : (room.step c).1 = (room.on_ws_message opcode params env).1) : RosterActs room c := by
  have only (h : room.enters opcode params = false ∧ leaves opcode = false ∧ announced opcode params = []) :
      ∀ opcode params env, room.processed c = some (opcode, params, env) →
        room.enters opcode params = false ∧ leaves opcode = false ∧ announced opcode params = [] :=
    (forall_processed hp _).2 h
  have hd := room.dispatched opcode params env
  rw [← hs] at hd
  generalize hroom : (room.step c).1 = room' at hd
  cases hd with
  | create => exact .enters _ params env hp rfl (hroom ▸ enter_conference_roster room params env)
  | join =>
    cases hm : room.is_mine params with
    | true =>
      have henters : room.enters TYPE_CONFERENCE_JOIN params = true := by simp [enters, hm]
      exact .enters _ params env hp henters (hroom ▸ on_ws_conference_join_roster room params env)
    | false =>
      have henters : room.enters TYPE_CONFERENCE_JOIN params = false := by
        simp only [enters, hm]
        rfl
      refine .shrinks (only ⟨henters, rfl, rfl⟩) fun x hx => ?_
      rwa [hroom, on_ws_conference_join_roster room params env] at hx
  | new_joined =>
    exact .announces _ params env hp (.inl rfl) (hroom ▸ mem_add_other_users [read_online_user params] room)
  | pull_stream =>
    exact .shrinks (only ⟨rfl, rfl, rfl⟩) (hroom ▸ on_ws_conference_pull_stream_roster room params env)
  | stop_pulling => exact .shrinks (only ⟨rfl, rfl, rfl⟩) (hroom ▸ fun _ hx => hx)
  | exit => exact .leaves _ params env hp rfl (hroom ▸ rfl)
  | stop => exact .leaves _ params env hp rfl (hroom ▸ rfl)
  | closing => exact .leaves _ params env hp rfl (hroom ▸ rfl)
  | user_gone =>
    refine .shrinks (only ⟨rfl, rfl, rfl⟩) (hroom ▸ fun x hx => ?_)
    obtain ⟨e, he, rfl⟩ := List.mem_map.1 hx
    exact List.mem_map.2 ⟨e, (List.mem_filter.1 he).1, rfl⟩
  | online_users =>
    exact .announces _ params env hp (.inr rfl)
      (hroom ▸ mem_add_other_users (announced TYPE_CONFERENCE_ONLINE_USERS params)
        { room with m_is_signal_running := false })
  | other h =>
    simp only [List.mem_cons, List.not_mem_nil, or_false, not_or] at h
    refine .shrinks (only ⟨by simp [enters, h], by simp [leaves, h], by simp [announced, h]⟩) ?_
    rw [hroom]
    exact fun _ hx => hx

theorem init_roster (room : LiveMeetingRoom) (ip : Bytes) (port : UInt16) (thread audio video : Bool) :
    ∀ x ∈ (room.init ip port thread audio video).1.roster, x ∈ room.roster := by
  unfold init
  cases room.m_initialized <;> cases thread <;> cases audio <;> cases video <;>
    first | exact fun _ hx => hx | exact fun _ hx => by cases hx

theorem send_request_roster (room : LiveMeetingRoom) (env : SignalEnv) (cmd : Int) (params : JsonObject) :
    (room.send_request env cmd params).room.roster = room.roster := by
  unfold send_request
  split <;> rfl

theorem throttle_roster {room room' : LiveMeetingRoom} {nowSeconds : UInt64}
    (h : room.throttle nowSeconds = some room') : room'.roster = room.roster := by
  rw [(throttle_some h).2]
  rfl

theorem signal_enter_roster (room : LiveMeetingRoom) (env : SignalEnv) (cmd : Int) (params : JsonObject)
    (update : LiveMeetingRoom → LiveMeetingRoom) (hu : ∀ room, (update room).roster = room.roster) :
    (room.signal_enter env cmd params update).room.roster = room.roster := by
  unfold signal_enter
  split
  · rfl
  split
  · rfl
  split
  · rfl
  · rename_i room' h
    rw [send_request_roster, hu, throttle_roster h]

theorem signal_inside_roster (room : LiveMeetingRoom) (env : SignalEnv) (cmd : Int) :
    (room.signal_inside env cmd).room.roster = room.roster := by
  unfold signal_inside
  split
  · rfl
  split
  · rfl
  split
  · rfl
  · rename_i room' h
    rw [send_request_roster, throttle_roster h]

theorem signal_streams_roster (room : LiveMeetingRoom) (env : SignalEnv) (cmd : Int) (streams : Streams) :
    (room.signal_streams env cmd streams).1.room.roster = room.roster := by
  unfold signal_streams
  split
  · rfl
  split
  · rfl
  dsimp only
  split
  · rfl
  split
  · rfl
  · rename_i room' h
    rw [send_request_roster, throttle_roster h]

/-- A call that processes no message brings nobody in. -/
theorem step_roster (room : LiveMeetingRoom) {c : Call} (hp : room.processed c = none) :
    ∀ x ∈ (room.step c).1.roster, x ∈ room.roster := by
  cases c with
  | init ip port thread audio video => exact init_roster room ip port thread audio video
  | un_init => exact fun _ hx => by cases hx
  | send_h264_data data addr length now_ms sendto =>
    simp only [step, send_h264_data]
    split <;> exact fun _ hx => hx
  | send_aac_data data length now_ms sendto =>
    simp only [step, send_aac_data]
    split <;> exact fun _ hx => hx
  | signal_create_conference id name env =>
    exact fun x hx => signal_enter_roster room env _ _ _ (fun _ => rfl) ▸ hx
  | signal_join_conference conf id name env =>
    exact fun x hx => signal_enter_roster room env _ _
      (fun room => { room with m_my_user_id := id, m_my_user_name := name }) (fun _ => rfl) ▸ hx
  | signal_start_pull_stream streams env => exact fun x hx => signal_streams_roster room env _ streams ▸ hx
  | signal_stop_pull_stream streams env => exact fun x hx => signal_streams_roster room env _ streams ▸ hx
  | signal_exit_conference env => exact fun x hx => signal_inside_roster room env _ ▸ hx
  | signal_stop_conference env => exact fun x hx => signal_inside_roster room env _ ▸ hx
  | signal_online_users env => exact fun x hx => signal_inside_roster room env _ ▸ hx
  | signal_heartbeat uuid conf sent =>
    simp only [step, signal_heartbeat]
    split
    · exact fun _ hx => hx
    · split <;> exact fun _ hx => hx
  | message json env =>
    rw [message_unprocessed hp]
    exact fun _ hx => hx
  | event e =>
    simp only [step]
    split <;> exact fun _ hx => hx
  | receive arrived => exact fun x hx => receive_round_roster room arrived ▸ hx
  | _ => exact fun _ hx => hx

theorem roster_step (room : LiveMeetingRoom) (c : Call) : RosterActs room c := by
  cases hp : room.processed c with
  | some m => exact on_ws_message_roster room hp (step_processed room hp)
  | none => exact .shrinks (by simp [hp]) (step_roster room hp)

/-! ## Whose roster it is -/

/-- A room, and the conference each user in its roster was announced for. -/
structure Listed where
  room : LiveMeetingRoom
  conference : Bytes → Bytes

/-- The conference a message names. -/
def namedConference (room : LiveMeetingRoom) (c : Call) : Bytes :=
  match room.processed c with
  | some (_, params, _) => (params.get (ascii "conference_id")).as_string
  | none => []

namespace Listed

/-- A user that is not in the roster can only come in with the conference the message names. -/
def step (t : Listed) (c : Call) : Listed × Output :=
  ({ room := (t.room.step c).1
     conference := fun uuid => if t.room.Unknown uuid then t.room.namedConference c else t.conference uuid },
    (t.room.step c).2)

/-- Every user in the roster was announced for the current conference and has the own uuid as
pinhole uuid. -/
def Current (t : Listed) : Prop :=
  ∀ x ∈ t.room.roster, t.conference x.1 = t.room.m_my_room_id ∧ x.2 = t.room.m_my_user_uuid

end Listed

/-- Users that come in are announced for the current conference, and the identifiers change only
while the roster is empty. -/
def Announces (room : LiveMeetingRoom) (c : Call) : Prop :=
  ∀ opcode params env, room.processed c = some (opcode, params, env) →
    (∀ user ∈ announced opcode params, room.Unknown user.userUUID →
      (params.get (ascii "conference_id")).as_string = room.m_my_room_id) ∧
    (room.enters opcode params = true → room.roster ≠ [] →
      (params.get (ascii "conference_id")).as_string = room.m_my_room_id ∧
        (params.get (ascii "user_uuid")).as_string = room.m_my_user_uuid)

theorem announced_enters {room : LiveMeetingRoom} {opcode : Int} {params : JsonObject}
    (h : room.enters opcode params = true) : announced opcode params = [] := by
  have ho : opcode = TYPE_CONFERENCE_CREATE ∨ opcode = TYPE_CONFERENCE_JOIN := by
    simp only [enters, Bool.or_eq_true, decide_eq_true_eq, Bool.and_eq_true] at h
    exact h.imp id And.left
  rcases ho with rfl | rfl <;> rfl

theorem not_enters_announced (room : LiveMeetingRoom) {opcode : Int} (params : JsonObject)
    (h : opcode = TYPE_CONFERENCE_NEW_JOINED ∨ opcode = TYPE_CONFERENCE_ONLINE_USERS) :
    room.enters opcode params = false ∧ leaves opcode = false := by
  rcases h with rfl | rfl <;> exact ⟨rfl, rfl⟩

theorem announces_iff {room : LiveMeetingRoom} {c : Call} {opcode : Int} {params : JsonObject} {env : MessageEnv}
    (hp : room.processed c = some (opcode, params, env)) :
    room.Announces c ↔
      (∀ user ∈ announced opcode params, room.Unknown user.userUUID →
        (params.get (ascii "conference_id")).as_string = room.m_my_room_id) ∧
      (room.enters opcode params = true → room.roster ≠ [] →
        (params.get (ascii "conference_id")).as_string = room.m_my_room_id ∧
          (params.get (ascii "user_uuid")).as_string = room.m_my_user_uuid) :=
  forall_processed hp _

/-- A user that was in the roster keeps its conference. -/
theorem Listed.conference_kept {t : Listed} (h : t.Current) (c : Call) {x : Bytes × Bytes} (hx : x ∈ t.room.roster) :
    (t.step c).1.conference x.1 = t.room.m_my_room_id := by
  refine Eq.trans ?_ (h x hx).1
  exact if_neg (fun hu => hu x hx rfl)

theorem Listed.conference_new (t : Listed) {c : Call} {opcode : Int} {params : JsonObject} {env : MessageEnv}
    (hp : t.room.processed c = some (opcode, params, env)) {uuid : Bytes} (hu : t.room.Unknown uuid) :
    (t.step c).1.conference uuid = (params.get (ascii "conference_id")).as_string := by
  have hnew : (t.step c).1.conference uuid = t.room.namedConference c := if_pos hu
  rw [hnew, namedConference, hp]

/-- The identifiers a response brings. -/
theorem identifiers_entered {room : LiveMeetingRoom} {c : Call} {opcode : Int} {params : JsonObject} {env : MessageEnv}
    (hp : room.processed c = some (opcode, params, env)) (he : room.enters opcode params = true) :
    (room.step c).1.m_my_room_id = (params.get (ascii "conference_id")).as_string ∧
      (room.step c).1.m_my_user_uuid = (params.get (ascii "user_uuid")).as_string := by
  have hm := membership_step room c
  rw [membershipAction, hp] at hm
  simp only [messageMembership, he, if_true] at hm
  exact ⟨congrArg Membership.room_id hm, congrArg Membership.user_uuid hm⟩

theorem Listed.step_current {t : Listed} (h : t.Current) (c : Call) : (t.step c).1.Current ↔ t.room.Announces c := by
  unfold Current
  change (∀ x ∈ (t.room.step c).1.roster, _ = (t.room.step c).1.m_my_room_id ∧
    x.2 = (t.room.step c).1.m_my_user_uuid) ↔ _
  have hkept (x) (hx : x ∈ t.room.roster) :
      (t.step c).1.conference x.1 = t.room.m_my_room_id ∧ x.2 = t.room.m_my_user_uuid :=
    ⟨conference_kept h c hx, (h x hx).2⟩
  cases t.room.roster_step c with
  | enters opcode params env hp he hr =>
    have hids := identifiers_entered hp he
    rw [hr, hids.1, hids.2, announces_iff hp, announced_enters he]
    constructor
    · intro hcur
      refine ⟨by simp, fun _ hne => ?_⟩
      obtain ⟨x, hx⟩ := List.exists_mem_of_ne_nil _ hne
      obtain ⟨hroom, huuid⟩ := hcur x hx
      exact ⟨hroom.symm.trans (hkept x hx).1, huuid.symm.trans (hkept x hx).2⟩
    · rintro ⟨-, hsame⟩ x hx
      obtain ⟨hroom, huuid⟩ := hsame he (List.ne_nil_of_mem hx)
      rw [hroom, huuid]
      exact hkept x hx
  | leaves opcode params env hp hl hr =>
    have he : t.room.enters opcode params = false ∧ announced opcode params = [] := by
      simp only [LiveMeetingRoom.leaves, Bool.or_eq_true, decide_eq_true_eq] at hl
      rcases hl with (rfl | rfl) | rfl <;> exact ⟨rfl, rfl⟩
    rw [hr, announces_iff hp, he.1, he.2]
    simp
  | announces opcode params env hp ho hr =>
    have hother := not_enters_announced t.room params ho
    have hids := t.room.identifiers_kept c ((forall_processed hp _).2 hother)
    rw [hids.1, hids.2, announces_iff hp, hother.1]
    constructor
    · intro hcur
      refine ⟨fun user hu hunknown => ?_, by simp⟩
      have hx := (hr (user.userUUID, t.room.m_my_user_uuid)).2 (.inr ⟨rfl, hunknown, List.mem_map.2 ⟨user, hu, rfl⟩⟩)
      rw [← conference_new t hp hunknown]
      exact (hcur _ hx).1
    · rintro ⟨hnamed, -⟩ x hx
      rcases (hr x).1 hx with hx | ⟨hpin, hunknown, hu⟩
      · exact hkept x hx
      · obtain ⟨user, hu, he⟩ := List.mem_map.1 hu
        refine ⟨?_, hpin⟩
        rw [conference_new t hp hunknown]
        exact hnamed user hu (he ▸ hunknown)
  | shrinks hn hr =>
    have hids := t.room.identifiers_kept c (fun opcode params env hp => ⟨(hn opcode params env hp).1,
      (hn opcode params env hp).2.1⟩)
    rw [hids.1, hids.2]
    refine iff_of_true (fun x hx => hkept x (hr x hx)) ?_
    intro opcode params env hp
    obtain ⟨he, -, ha⟩ := hn opcode params env hp
    rw [he, ha]
    simp

/-- In every state of a run the roster belongs to the current membership, exactly if every call of
the run announces users of the current conference only and changes the identifiers only while the
roster is empty. -/
theorem roster_current_iff (video_ssrc audio_ssrc : UInt32) (video_push_port audio_push_port : UInt16)
    (conference : Bytes → Bytes) (calls : List Call) :
    (∀ pre post, calls = pre ++ post →
      (final Listed.step ⟨new video_ssrc audio_ssrc video_push_port audio_push_port, conference⟩ pre).Current) ↔
      Along Listed.step (fun t c => t.room.Announces c)
        ⟨new video_ssrc audio_ssrc video_push_port audio_push_port, conference⟩ calls := by
  refine along_iff Listed.step Listed.Current (fun _ => True) (fun _ => True) (fun _ _ _ => trivial)
    (fun t c _ _ h => Listed.step_current h c) trivial ?_ calls (fun _ _ => trivial)
  intro x hx
  cases hx

/-- A user joins before the own join response has come. -/
def earlyNotice : List Call :=
  [.init (ascii "10.0.0.1") 8080 true true true,
    .message (some (app_response_json (ascii "200") (ascii "OK") TYPE_CONFERENCE_NEW_JOINED (ascii "7") [
      (ascii "conference_id", ascii "100"), (ascii "user_id", ascii "bob"),
      (ascii "user_uuid", ascii "b1")])) sampleEnv]

theorem not_roster_current :
    ¬ ∀ calls, (final Listed.step ⟨new 0 0 0 0, fun _ => []⟩ calls).Current := by
  intro h
  have hc := h earlyNotice (ascii "b1", []) (by decide +kernel)
  revert hc
  decide +kernel

end LiveMeetingRoom

end RtcClient
