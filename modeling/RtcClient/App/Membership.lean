import RtcClient.App.Media
/-!
# The membership and the throttle

The two identifiers that say whether the room is in a conference, and the flag and
the time the request operations are throttled by. `membership_step` shows that
every call of the room is one of six actions on them.
-/

namespace RtcClient

open Lib

structure Membership where
  room_id : Bytes
  user_uuid : Bytes
  signal_running : Bool
  prev_signal_time : UInt64
deriving DecidableEq, Repr

namespace Membership

inductive Action where
  | skip
  /-- A response the room enters a conference with. -/
  | enter (room_id user_uuid : Bytes)
  | leave
  /-- Another response to a request. -/
  | answer
  /-- A request that passes the throttle, and whether it could be sent. -/
  | request (nowSeconds : UInt64) (sent : Bool)
deriving DecidableEq, Repr

def act (m : Membership) : Action → Membership
  | .skip => m
  | .enter room_id user_uuid => { m with room_id := room_id, user_uuid := user_uuid, signal_running := false }
  | .leave => { m with room_id := [], user_uuid := [], signal_running := false }
  | .answer => { m with signal_running := false }
  | .request nowSeconds sent => { m with signal_running := sent, prev_signal_time := nowSeconds }

/-- A request may be made. -/
def Admits (m : Membership) (nowSeconds : UInt64) : Prop :=
  m.signal_running = true → ¬ nowSeconds - m.prev_signal_time < 6

end Membership

namespace LiveMeetingRoom

def membership (room : LiveMeetingRoom) : Membership where
  room_id := room.m_my_room_id
  user_uuid := room.m_my_user_uuid
  signal_running := room.m_is_signal_running
  prev_signal_time := room.m_prev_signal_time

/-! ## The actions of the calls -/

/-- A message whose handler sets `m_is_signal_running` to false, entering and leaving apart. -/
def answers (opcode : Int) : Bool :=
  opcode = TYPE_CONFERENCE_JOIN || opcode = TYPE_CONFERENCE_PULL_STREAM || opcode = TYPE_CONFERENCE_STOP_PULLING ||
    opcode = TYPE_CONFERENCE_ONLINE_USERS

/-- What a message with status code 200 does to the membership. -/
def messageMembership (room : LiveMeetingRoom) (opcode : Int) (params : JsonObject) : Membership.Action :=
  if room.enters opcode params then
    .enter (params.get (ascii "conference_id")).as_string (params.get (ascii "user_uuid")).as_string
  else if leaves opcode then .leave
  else if answers opcode then .answer
  else .skip

/-- The seven request operations, with the clock each reads and the code it returns. -/
def requested (room : LiveMeetingRoom) : Call → Option (UInt64 × Int)
  | .signal_create_conference myUserId myUserName env =>
    some (env.nowSeconds, (room.signal_create_conference myUserId myUserName env).code)
  | .signal_join_conference conferenceId myUserId myUserName env =>
    some (env.nowSeconds, (room.signal_join_conference conferenceId myUserId myUserName env).code)
  | .signal_start_pull_stream streams env => some (env.nowSeconds, (room.signal_start_pull_stream streams env).1.code)
  | .signal_stop_pull_stream streams env => some (env.nowSeconds, (room.signal_stop_pull_stream streams env).1.code)
  | .signal_exit_conference env => some (env.nowSeconds, (room.signal_exit_conference env).code)
  | .signal_stop_conference env => some (env.nowSeconds, (room.signal_stop_conference env).code)
  | .signal_online_users env => some (env.nowSeconds, (room.signal_online_users env).code)
  | _ => none

/-- A request operation gets past its guards if it returns 0, or if sending fails. -/
def requestMembership (nowSeconds : UInt64) (code : Int) : Membership.Action :=
  if code = 0 then .request nowSeconds true
  else if code = ERROR_WEBSOCKET_NOT_CONNECTED then .request nowSeconds false
  else .skip

def membershipAction (room : LiveMeetingRoom) (c : Call) : Membership.Action :=
  match room.processed c with
  | some (opcode, params, _) => room.messageMembership opcode params
  | none =>
    match room.requested c with
    | some (nowSeconds, code) => requestMembership nowSeconds code
    | none => .skip

/-! ### Requests -/

/-- What a request operation does: refused, it leaves the room alone; otherwise it was admitted. -/
structure Requests (room : LiveMeetingRoom) (nowSeconds : UInt64) (r : SignalResult) : Prop where
  membership : r.room.membership = room.membership.act (requestMembership nowSeconds r.code)
  admitted : requestMembership nowSeconds r.code ≠ .skip → room.membership.Admits nowSeconds

theorem Requests.refused (room : LiveMeetingRoom) (nowSeconds : UInt64) {code : Int} (h0 : code ≠ 0)
    (h1 : code ≠ ERROR_WEBSOCKET_NOT_CONNECTED) : Requests room nowSeconds ⟨room, code, none⟩ := by
  have hskip : requestMembership nowSeconds code = .skip := by simp [requestMembership, h0, h1]
  exact ⟨by rw [hskip]; rfl, fun h => absurd hskip h⟩

theorem throttle_some {room room' : LiveMeetingRoom} {nowSeconds : UInt64}
    (h : room.throttle nowSeconds = some room') :
    room.membership.Admits nowSeconds ∧
      room' = { room with m_is_signal_running := true, m_prev_signal_time := nowSeconds } := by
  unfold throttle at h
  split at h
  · cases h
  · rename_i hn
    cases h
    refine ⟨?_, rfl⟩
    simpa [Membership.Admits, membership] using hn

/-- A request sent from a room that differs from the throttled one in no identifier. -/
theorem Requests.sent {room room' : LiveMeetingRoom} {env : SignalEnv}
    (h : room.throttle env.nowSeconds = some room') (update : LiveMeetingRoom → LiveMeetingRoom)
    (hu : ∀ room, (update room).membership = room.membership) (cmd : Int) (params : JsonObject) :
    Requests room env.nowSeconds ((update room').send_request env cmd params) := by
  obtain ⟨hadmits, rfl⟩ := throttle_some h
  have hm := hu { room with m_is_signal_running := true, m_prev_signal_time := env.nowSeconds }
  generalize update { room with m_is_signal_running := true, m_prev_signal_time := env.nowSeconds } = next at hm
  refine ⟨?_, fun _ => hadmits⟩
  unfold send_request
  split
  · exact hm
  · have hcode : requestMembership env.nowSeconds ERROR_WEBSOCKET_NOT_CONNECTED = .request env.nowSeconds false := rfl
    rw [hcode]
    exact congrArg (fun m : Membership => { m with signal_running := false }) hm

theorem signal_enter_requests (room : LiveMeetingRoom) (env : SignalEnv) (cmd : Int) (params : JsonObject)
    (update : LiveMeetingRoom → LiveMeetingRoom) (hu : ∀ room, (update room).membership = room.membership) :
    Requests room env.nowSeconds (room.signal_enter env cmd params update) := by
  unfold signal_enter
  split
  · exact .refused room _ (by decide) (by decide)
  split
  · exact .refused room _ (by decide) (by decide)
  split
  · exact .refused room _ (by decide) (by decide)
  · rename_i room' h
    exact .sent h update hu cmd params

theorem signal_inside_requests (room : LiveMeetingRoom) (env : SignalEnv) (cmd : Int) :
    Requests room env.nowSeconds (room.signal_inside env cmd) := by
  unfold signal_inside
  split
  · exact .refused room _ (by decide) (by decide)
  split
  · exact .refused room _ (by decide) (by decide)
  split
  · exact .refused room _ (by decide) (by decide)
  · rename_i room' h
    exact .sent h id (fun _ => rfl) cmd room'.my_params

theorem signal_streams_requests (room : LiveMeetingRoom) (env : SignalEnv) (cmd : Int) (streams : Streams) :
    Requests room env.nowSeconds (room.signal_streams env cmd streams).1 := by
  unfold signal_streams
  split
  · exact .refused room _ (by decide) (by decide)
  split
  · exact .refused room _ (by decide) (by decide)
  dsimp only
  split
  · exact .refused room _ (by decide) (by decide)
  split
  · exact .refused room _ (by decide) (by decide)
  · rename_i room' h
    exact .sent h id (fun _ => rfl) cmd _

/-! ### Operations that leave the membership alone -/

theorem add_other_user_membership (room : LiveMeetingRoom) (user : OnlineUser) :
    (room.add_other_user user).membership = room.membership := by
  unfold add_other_user
  split <;> rfl

theorem pull_stream_user_membership (room : LiveMeetingRoom) (streamJson : JsonObject) (env : Nat → ReceiverEnv) :
    (room.pull_stream_user streamJson env).membership = room.membership := by
  unfold pull_stream_user
  dsimp only
  split <;> rfl

theorem add_sender_destination_membership (room : LiveMeetingRoom) (videoIP : Bytes) (videoPort videoSeq : UInt16)
    (videoTs videoSSRC : UInt32) (audioIP : Bytes) (audioPort audioSeq : UInt16) (audioTs audioSSRC : UInt32)
    (env : MessageEnv) :
    (room.add_sender_destination videoIP videoPort videoSeq videoTs videoSSRC audioIP audioPort audioSeq audioTs
      audioSSRC env).membership = room.membership := by
  unfold add_sender_destination
  split
  · dsimp only
    split
    · rfl
    split
    · rfl
    split <;> rfl
  · rfl

theorem send_h264_data_membership (room : LiveMeetingRoom) (data : Buffer) (addr length : Nat) (now_ms : UInt32)
    (sendto : Nat → IPAddrV4 → Int) :
    (room.send_h264_data data addr length now_ms sendto).1.membership = room.membership := by
  unfold send_h264_data
  split <;> rfl

theorem send_aac_data_membership (room : LiveMeetingRoom) (data : Buffer) (length : Nat) (now_ms : UInt32)
    (sendto : IPAddrV4 → Int) : (room.send_aac_data data length now_ms sendto).1.membership = room.membership := by
  unfold send_aac_data
  split <;> rfl

theorem receive_round_membership (room : LiveMeetingRoom) (arrived : Bytes → Buffer × Buffer) :
    (room.receive_round arrived).1.membership = room.membership := by
  unfold receive_round
  split <;> rfl

theorem init_membership (room : LiveMeetingRoom) (ip : Bytes) (port : UInt16) (thread audio video : Bool) :
    (room.init ip port thread audio video).1.membership = room.membership := by
  unfold init
  cases room.m_initialized <;> cases thread <;> cases audio <;> cases video <;> rfl

theorem signal_heartbeat_membership (room : LiveMeetingRoom) (myUserUUID conferenceID : Bytes) (sent : Bool) :
    (room.signal_heartbeat myUserUUID conferenceID sent).room.membership = room.membership := by
  unfold signal_heartbeat
  split
  · rfl
  · split <;> rfl

/-! ### Messages -/

theorem enter_conference_membership (room : LiveMeetingRoom) (params : JsonObject) (env : MessageEnv) :
    (room.enter_conference params env).membership =
      { room.membership with
        room_id := (params.get (ascii "conference_id")).as_string
        user_uuid := (params.get (ascii "user_uuid")).as_string } := by
  unfold enter_conference
  dsimp only
  split
  · rw [add_sender_destination_membership]
    rfl
  · exact (add_sender_destination_membership _ _ _ _ _ _ _ _ _ _ _ _).trans rfl

/-- The membership with no request running. -/
def quiet (m : Membership) : Membership := { m with signal_running := false }

theorem on_ws_conference_join_membership (room : LiveMeetingRoom) (params : JsonObject) (env : MessageEnv) :
    (room.on_ws_conference_join params env).1.membership =
      if room.is_mine params then
        room.membership.act
          (.enter (params.get (ascii "conference_id")).as_string (params.get (ascii "user_uuid")).as_string)
      else room.membership.act .answer := by
  unfold on_ws_conference_join
  split
  · exact congrArg quiet (enter_conference_membership room params env)
  · rfl

theorem on_ws_message_membership (room : LiveMeetingRoom) (opcode : Int) (params : JsonObject) (env : MessageEnv) :
    (room.on_ws_message opcode params env).1.membership =
      room.membership.act (room.messageMembership opcode params) := by
  have hd := room.dispatched opcode params env
  generalize (room.on_ws_message opcode params env).1 = room' at hd ⊢
  -- once the opcode is known, the action is evaluated
  cases hd with
  | create => exact congrArg quiet (enter_conference_membership room params env)
  | join =>
    refine (on_ws_conference_join_membership room params env).trans ?_
    cases hm : room.is_mine params <;> simp only [messageMembership, enters, hm] <;> rfl
  | new_joined => exact add_other_user_membership room _
  | pull_stream =>
    exact congrArg quiet (foldl_keeps membership (fun room i => pull_stream_user_membership room _ _) _ room)
  | stop_pulling => rfl
  | user_gone => rfl
  | exit => rfl
  | stop => rfl
  | closing => rfl
  | online_users =>
    exact foldl_keeps membership add_other_user_membership _ { room with m_is_signal_running := false }
  | other h =>
    simp only [List.mem_cons, List.not_mem_nil, or_false, not_or] at h
    have henters : room.enters opcode params = false := by simp [enters, h]
    have hleaves : leaves opcode = false := by simp [leaves, h]
    have hanswers : answers opcode = false := by simp [answers, h]
    rw [messageMembership, henters, hleaves, hanswers]
    rfl

/-- Every call acts on the membership as its action does. -/
theorem membership_step (room : LiveMeetingRoom) (c : Call) :
    (room.step c).1.membership = room.membership.act (room.membershipAction c) := by
  cases hp : room.processed c with
  | some m =>
    obtain ⟨opcode, params, env⟩ := m
    unfold membershipAction
    rw [step_processed room hp, hp]
    exact on_ws_message_membership room opcode params env
  | none =>
    cases c with
    | init ip port thread audio video => exact init_membership room ip port thread audio video
    | send_h264_data data addr length now_ms sendto =>
      exact send_h264_data_membership room data addr length now_ms sendto
    | send_aac_data data length now_ms sendto => exact send_aac_data_membership room data length now_ms sendto
    | signal_create_conference id name env => exact (signal_enter_requests room env _ _ _ (fun _ => rfl)).membership
    | signal_join_conference conf id name env =>
      exact (signal_enter_requests room env _ _ (fun room => { room with m_my_user_id := id, m_my_user_name := name })
        (fun _ => rfl)).membership
    | signal_start_pull_stream streams env => exact (signal_streams_requests room env _ streams).membership
    | signal_stop_pull_stream streams env => exact (signal_streams_requests room env _ streams).membership
    | signal_exit_conference env => exact (signal_inside_requests room env _).membership
    | signal_stop_conference env => exact (signal_inside_requests room env _).membership
    | signal_online_users env => exact (signal_inside_requests room env _).membership
    | signal_heartbeat uuid conf sent => exact signal_heartbeat_membership room uuid conf sent
    | message json env =>
      unfold membershipAction
      rw [message_unprocessed hp, hp]
      rfl
    | event e =>
      simp only [step]
      split <;> rfl
    | receive arrived => exact receive_round_membership room arrived
    | _ => rfl

/-! ## One request at a time -/

/-- The clock a request operation reads. -/
def clock : Call → Option UInt64
  | .signal_create_conference _ _ env | .signal_join_conference _ _ _ env | .signal_start_pull_stream _ env
  | .signal_stop_pull_stream _ env | .signal_exit_conference env | .signal_stop_conference env
  | .signal_online_users env => some env.nowSeconds
  | _ => none

theorem requested_clock (room : LiveMeetingRoom) (c : Call) : (room.requested c).map (·.1) = clock c := by
  cases c <;> rfl

/-- A request operation gets past the throttle only if the membership admits it. -/
theorem requested_admits {room : LiveMeetingRoom} {c : Call} {t : UInt64} {code : Int}
    (h : room.requested c = some (t, code)) (hr : requestMembership t code ≠ .skip) : room.membership.Admits t := by
  cases c with
  | signal_create_conference id name env =>
    cases h
    exact (signal_enter_requests room env _ _ _ (fun _ => rfl)).admitted hr
  | signal_join_conference conf id name env =>
    cases h
    exact (signal_enter_requests room env _ _ (fun room => { room with m_my_user_id := id, m_my_user_name := name })
      (fun _ => rfl)).admitted hr
  | signal_start_pull_stream streams env =>
    cases h
    exact (signal_streams_requests room env _ streams).admitted hr
  | signal_stop_pull_stream streams env =>
    cases h
    exact (signal_streams_requests room env _ streams).admitted hr
  | signal_exit_conference env =>
    cases h
    exact (signal_inside_requests room env _).admitted hr
  | signal_stop_conference env =>
    cases h
    exact (signal_inside_requests room env _).admitted hr
  | signal_online_users env =>
    cases h
    exact (signal_inside_requests room env _).admitted hr
  | _ => cases h

/-- The handler of such messages sets `m_is_signal_running` to false. -/
def Releases (opcode : Int) : Prop :=
  ∀ (room : LiveMeetingRoom) (params : JsonObject) (env : MessageEnv),
    (room.on_ws_message opcode params env).1.m_is_signal_running = false

theorem releases_of {room : LiveMeetingRoom} {opcode : Int} {params : JsonObject}
    (h : room.messageMembership opcode params ≠ .skip) : Releases opcode := by
  -- the opcode alone decides whether a request stays running
  have hop : opcode = TYPE_CONFERENCE_CREATE ∨ leaves opcode = true ∨ answers opcode = true := by
    by_contra hn
    push Not at hn
    obtain ⟨hcreate, hleaves, hanswers⟩ := hn
    have hjoin : opcode ≠ TYPE_CONFERENCE_JOIN := fun he => hanswers (by simp [answers, he])
    exact h (by simp [messageMembership, enters, hcreate, hjoin, hleaves, hanswers])
  intro room params env
  have hm := congrArg Membership.signal_running (on_ws_message_membership room opcode params env)
  refine hm.trans ?_
  unfold messageMembership
  split
  · rfl
  rename_i henters
  rcases hop with rfl | hleaves | hanswers
  · exact absurd rfl henters
  · rw [if_pos hleaves]
    rfl
  · split
    · rfl
    · rfl

/-- A call releases the throttle, makes a request, or leaves the membership alone. -/
theorem membershipAction_cases (room : LiveMeetingRoom) (c : Call) :
    (∃ opcode params env, room.processed c = some (opcode, params, env) ∧ Releases opcode) ∨
      (∃ t code, room.requested c = some (t, code) ∧ room.membershipAction c = requestMembership t code) ∨
      room.membershipAction c = .skip := by
  unfold membershipAction
  cases hp : room.processed c with
  | some m =>
    obtain ⟨opcode, params, env⟩ := m
    by_cases hs : room.messageMembership opcode params = .skip
    · exact .inr (.inr hs)
    · exact .inl ⟨opcode, params, env, rfl, releases_of hs⟩
  | none =>
    cases hr : room.requested c with
    | some r => exact .inr (.inl ⟨r.1, r.2, rfl, rfl⟩)
    | none => exact .inr (.inr rfl)

/-- The request made at `t` is running. -/
def InFlight (room : LiveMeetingRoom) (t : UInt64) : Prop :=
  room.membership.signal_running = true ∧ room.membership.prev_signal_time = t

theorem inFlight_sent {room : LiveMeetingRoom} {c : Call} {t : UInt64} (h : room.requested c = some (t, 0)) :
    (room.step c).1.InFlight t := by
  have hp : room.processed c = none := by
    cases c <;> first | rfl | cases h
  have ha : room.membershipAction c = .request t true := by
    unfold membershipAction
    rw [hp, h]
    rfl
  unfold InFlight
  rw [membership_step, ha]
  exact ⟨rfl, rfl⟩

/-- While a request is in flight and less than six seconds old, no other gets past the throttle. -/
theorem InFlight.blocks {room : LiveMeetingRoom} {t t' : UInt64} {c : Call} {code : Int} (h : room.InFlight t)
    (hr : room.requested c = some (t', code)) (hlt : t' - t < 6) : requestMembership t' code = .skip := by
  by_contra hs
  have ha := requested_admits hr hs h.1
  rw [h.2] at ha
  exact ha hlt

theorem InFlight.after_call {room : LiveMeetingRoom} {t : UInt64} (h : room.InFlight t) {c : Call}
    (hc : ∀ t', clock c = some t' → t' - t < 6) :
    (∃ opcode params env, room.processed c = some (opcode, params, env) ∧ Releases opcode) ∨
      (room.step c).1.InFlight t := by
  rcases room.membershipAction_cases c with hp | ⟨t', code, hr, ha⟩ | ha
  · exact .inl hp
  · right
    have hclock : clock c = some t' := by rw [← requested_clock room c, hr]; rfl
    rw [h.blocks hr (hc t' hclock)] at ha
    unfold InFlight
    rw [membership_step, ha]
    exact h
  · right
    unfold InFlight
    rw [membership_step, ha]
    exact h

/-- A request stays in flight until a message releases it. -/
theorem InFlight.after_calls {t : UInt64} : ∀ {calls : List Call} {room : LiveMeetingRoom}, room.InFlight t →
    (∀ t' ∈ calls.filterMap clock, t' - t < 6) →
    (∃ pre c post opcode params env, calls = pre ++ c :: post ∧
      (final step room pre).processed c = some (opcode, params, env) ∧ Releases opcode) ∨
      (final step room calls).InFlight t := by
  intro calls
  induction calls with
  | nil => exact fun h _ => .inr h
  | cons c calls ih =>
    intro room h hc
    rcases h.after_call (c := c) (fun t' ht' => hc t' (List.mem_filterMap.2 ⟨c, by simp, ht'⟩)) with hp | hstep
    · obtain ⟨opcode, params, env, hp, hr⟩ := hp
      exact .inl ⟨[], c, calls, opcode, params, env, rfl, hp, hr⟩
    · have hrest : ∀ t' ∈ calls.filterMap clock, t' - t < 6 := by
        intro t' ht'
        obtain ⟨d, hd, hdt⟩ := List.mem_filterMap.1 ht'
        exact hc t' (List.mem_filterMap.2 ⟨d, by simp [hd], hdt⟩)
      rcases ih hstep hrest with hp | hfinal
      · obtain ⟨pre, d, post, opcode, params, env, rfl, hp, hr⟩ := hp
        exact .inl ⟨c :: pre, d, post, opcode, params, env, rfl, hp, hr⟩
      · exact .inr hfinal

theorem sub_lt_six {a b c : UInt64} (hab : a ≤ b) (hbc : b ≤ c) (h : c - a < 6) : b - a < 6 := by
  have hle := UInt64.le_trans hab hbc
  rw [UInt64.lt_iff_toNat_lt, UInt64.toNat_sub_of_le _ _ hle] at h
  rw [UInt64.lt_iff_toNat_lt, UInt64.toNat_sub_of_le _ _ hab]
  have := UInt64.le_iff_toNat_le.1 hbc
  omega

/-- If two request operations return 0 less than six seconds apart, and the clock does not run
backwards, then between them a message was processed that released the throttle. -/
theorem one_request_in_flight (video_ssrc audio_ssrc : UInt32) (video_push_port audio_push_port : UInt16)
    (before between : List Call) (first second : Call) (t1 t2 : UInt64)
    (h1 : (final step (new video_ssrc audio_ssrc video_push_port audio_push_port) before).requested first =
      some (t1, 0))
    (h2 : (final step (new video_ssrc audio_ssrc video_push_port audio_push_port)
      (before ++ first :: between)).requested second = some (t2, 0))
    (hclock : ((before ++ first :: between ++ [second]).filterMap clock).Pairwise (· ≤ ·)) (hlt : t2 - t1 < 6) :
    ∃ pre c post opcode params env, between = pre ++ c :: post ∧
      (final step (new video_ssrc audio_ssrc video_push_port audio_push_port)
        (before ++ first :: pre)).processed c = some (opcode, params, env) ∧ Releases opcode := by
  simp only [final_append, final_cons] at h2 ⊢
  generalize final step (new video_ssrc audio_ssrc video_push_port audio_push_port) before = room at h1 h2 ⊢
  have hc1 : clock first = some t1 := by rw [← requested_clock room first, h1]; rfl
  have hc2 : clock second = some t2 := by rw [← requested_clock _ second, h2]; rfl
  have htimes : (∀ t ∈ between.filterMap clock, t1 ≤ t) ∧ ∀ t ∈ between.filterMap clock, t ≤ t2 := by
    simp only [List.filterMap_append, List.filterMap_cons, hc1, hc2, List.filterMap_nil] at hclock
    obtain ⟨hleft, -, hright⟩ := List.pairwise_append.1 hclock
    obtain ⟨-, hcons, -⟩ := List.pairwise_append.1 hleft
    refine ⟨fun t ht => (List.pairwise_cons.1 hcons).1 t ht, fun t ht => hright t ?_ t2 (by simp)⟩
    exact List.mem_append.2 (.inr (List.mem_cons.2 (.inr ht)))
  have hwindow : ∀ t ∈ between.filterMap clock, t - t1 < 6 :=
    fun t ht => sub_lt_six (htimes.1 t ht) (htimes.2 t ht) hlt
  rcases (inFlight_sent h1).after_calls hwindow with hp | hfinal
  · exact hp
  · exact absurd (hfinal.blocks h2 hlt) (by simp [requestMembership])

/-- The answer to a create request lets the exit request through within the same second. -/
theorem one_request_in_flight_created :
    ∃ pre c post opcode params env, [created 100] = pre ++ c :: post ∧
      (final step (new 0 0 0 0) ([.init (ascii "10.0.0.1") 8080 true true true] ++ create 0 :: pre)).processed c =
        some (opcode, params, env) ∧ Releases opcode :=
  one_request_in_flight 0 0 0 0 [.init (ascii "10.0.0.1") 8080 true true true] [created 100] (create 0)
    (.signal_exit_conference ⟨0, ascii "8", true⟩) 0 0 (by decide +kernel) (by decide +kernel) (by decide)
    (by decide)

/-! ## The identifiers go together -/

/-- Entering is refused as already joined, and leaving as not joined. -/
def Locked (room : LiveMeetingRoom) : Prop :=
  ∃ myUserId myUserName conferenceId env,
    (room.signal_create_conference myUserId myUserName env).code = ERROR_CONFERENCE_ALREADY_JOINED ∧
      (room.signal_join_conference conferenceId myUserId myUserName env).code = ERROR_CONFERENCE_ALREADY_JOINED ∧
      (room.signal_exit_conference env).code = ERROR_CONFERENCE_NOT_JOINED ∧
      (room.signal_stop_conference env).code = ERROR_CONFERENCE_NOT_JOINED

/-- The room has both identifiers or neither, so some operation is open to it. -/
def Whole (room : LiveMeetingRoom) : Prop := (room.m_my_room_id = [] ↔ room.m_my_user_uuid = []) ∧ ¬ room.Locked

/-- A response the room enters a conference with has both identifiers or neither. -/
def EntersWhole (room : LiveMeetingRoom) (c : Call) : Prop :=
  ∀ opcode params env, room.processed c = some (opcode, params, env) → room.enters opcode params = true →
    ((params.get (ascii "conference_id")).as_string = [] ↔ (params.get (ascii "user_uuid")).as_string = [])

theorem refused_entering {room : LiveMeetingRoom} {env : SignalEnv} {cmd : Int} {params : JsonObject}
    {update : LiveMeetingRoom → LiveMeetingRoom}
    (h : (room.signal_enter env cmd params update).code = ERROR_CONFERENCE_ALREADY_JOINED) :
    room.m_my_room_id ≠ [] ∨ room.m_my_user_uuid ≠ [] := by
  unfold signal_enter at h
  split at h
  · cases h
  split at h
  · rename_i hg
    simpa using hg
  split at h
  · cases h
  · unfold send_request at h
    split at h <;> cases h

theorem refused_inside {room : LiveMeetingRoom} {env : SignalEnv} {cmd : Int}
    (h : (room.signal_inside env cmd).code = ERROR_CONFERENCE_NOT_JOINED) :
    room.m_my_room_id = [] ∨ room.m_my_user_uuid = [] := by
  unfold signal_inside at h
  split at h
  · cases h
  split at h
  · rename_i hg
    simpa [joined, Classical.or_iff_not_imp_left] using hg
  split at h
  · cases h
  · unfold send_request at h
    split at h <;> cases h

theorem whole_iff (room : LiveMeetingRoom) :
    room.Whole ↔ (room.membership.room_id = [] ↔ room.membership.user_uuid = []) := by
  refine and_iff_left_of_imp (fun h => ?_)
  rintro ⟨id, name, conf, env, hcreate, -, hexit, -⟩
  have henter := refused_entering hcreate
  have hleave := refused_inside hexit
  have hboth : room.m_my_room_id = [] ↔ room.m_my_user_uuid = [] := h
  rw [ne_eq, hboth, or_self] at henter
  rw [hboth, or_self] at hleave
  exact henter hleave

/-- A call keeps the identifiers together exactly if it does not bring one alone. -/
theorem step_whole {room : LiveMeetingRoom} (h : room.Whole) (c : Call) :
    (room.step c).1.Whole ↔ room.EntersWhole c := by
  rw [whole_iff] at h ⊢
  rw [membership_step]
  unfold membershipAction EntersWhole
  cases hp : room.processed c with
  | some m =>
    obtain ⟨opcode, params, env⟩ := m
    dsimp only
    unfold messageMembership
    split
    · rename_i he
      constructor
      · rintro hw _ _ _ hm -
        cases hm
        exact hw
      · intro hw
        exact hw opcode params env rfl he
    · rename_i he
      have hother : ∀ op ps en, some (opcode, params, env) = some (op, ps, en) → room.enters op ps = true →
          ((ps.get (ascii "conference_id")).as_string = [] ↔ (ps.get (ascii "user_uuid")).as_string = []) := by
        rintro _ _ _ hm hen
        cases hm
        exact absurd hen he
      refine iff_of_true ?_ hother
      split
      · exact iff_of_true rfl rfl
      · split <;> exact h
  | none =>
    refine iff_of_true ?_ (by simp)
    dsimp only
    split
    · unfold requestMembership
      split
      · exact h
      · split <;> exact h
    · exact h

/-- In every state of a run the room has both identifiers or neither, exactly if every response it
enters a conference with has both or neither. -/
theorem joined_state_whole_iff (video_ssrc audio_ssrc : UInt32) (video_push_port audio_push_port : UInt16)
    (calls : List Call) :
    (∀ pre post, calls = pre ++ post →
      (final step (new video_ssrc audio_ssrc video_push_port audio_push_port) pre).Whole) ↔
      Along step EntersWhole (new video_ssrc audio_ssrc video_push_port audio_push_port) calls := by
  refine along_iff step Whole (fun _ => True) (fun _ => True) (fun _ _ _ => trivial)
    (fun room c _ _ h => step_whole h c) trivial ?_ calls (fun _ _ => trivial)
  rw [whole_iff]
  exact iff_of_true rfl rfl

/-- A create response without a user uuid, as the websocket delivers it. -/
def halfCreated : Call :=
  .message (JsonObject.read_from_string {}
    (ascii "\x7b\"code\":\"200\",\"opcode\":\"1000\",\"params\":\x7b\"conference_id\":\"c1\"\x7d\x7d")) sampleEnv

/-- The room then refuses to enter and to leave. -/
theorem not_joined_state_whole : ¬ ∀ calls, (final step (new 0 0 0 0) calls).Whole := by
  intro h
  obtain ⟨hids, -⟩ := h [.init (ascii "10.0.0.1") 8080 true true true, halfCreated]
  revert hids
  decide +kernel

end LiveMeetingRoom

end RtcClient
