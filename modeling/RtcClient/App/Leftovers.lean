import RtcClient.App.Roster
/-!
# What a session leaves behind

Two ways out of a session, and what each leaves to the next one. A response releases the
request throttle in the handler of its opcode, which a response with another status code
than 200 does not reach. `un_initialize` frees what the session holds, but neither the
identifiers nor the throttle are reset, as they are when the room leaves a conference.
-/

namespace RtcClient

open Lib

namespace LiveMeetingRoom

/-! ## Responses -/

/-- The opcodes of the responses to requests. -/
def requestTypes : List Int :=
  [TYPE_CONFERENCE_CREATE, TYPE_CONFERENCE_JOIN, TYPE_CONFERENCE_PULL_STREAM, TYPE_CONFERENCE_STOP_PULLING,
    TYPE_CONFERENCE_EXIT, TYPE_CONFERENCE_STOP, TYPE_CONFERENCE_ONLINE_USERS]

def status_code (json : JsonObject) : Bytes := (json.get (ascii "code")).as_string

def message_opcode (json : JsonObject) : Int := string_to_int (json.get (ascii "opcode")).as_string

theorem requestTypes_release {opcode : Int} (h : opcode ∈ requestTypes) : Releases opcode := by
  have hacts : ∀ op ∈ requestTypes, (new 0 0 0 0).messageMembership op {} ≠ .skip := by decide
  exact releases_of (hacts opcode h)

/-- A response releases the throttle if its status code is 200, and otherwise leaves it as it is. -/
theorem response_releases (room : LiveMeetingRoom) {json : JsonObject} (env : MessageEnv)
    (h : message_opcode json ∈ requestTypes) :
    (room.on_websocket_message (some json) env).1.m_is_signal_running = false ↔
      status_code json = ascii "200" ∨ room.m_is_signal_running = false := by
  unfold on_websocket_message
  rw [Option.bind_some, read_message]
  by_cases hcode : (json.get (ascii "code")).as_string = ascii "200"
  · rw [if_pos hcode]
    exact iff_of_true (requestTypes_release h room _ env) (.inl hcode)
  · rw [if_neg hcode]
    exact ⟨.inr, fun hor => hor.resolve_left hcode⟩

/-- Behind a response with another status code the request stays in flight, and blocks all others for six seconds. -/
theorem error_blocks {room : LiveMeetingRoom} {t t' : UInt64} (h : room.InFlight t) {json : JsonObject}
    (env : MessageEnv) (hcode : status_code json ≠ ascii "200") {c : Call} {code : Int}
    (hr : (room.on_websocket_message (some json) env).1.requested c = some (t', code)) (hlt : t' - t < 6) :
    requestMembership t' code = .skip := by
  have hnone : read_message json = none := if_neg hcode
  have hsame : (room.on_websocket_message (some json) env).1 = room := by
    unfold on_websocket_message
    rw [Option.bind_some, hnone]
  rw [hsame] at hr
  exact h.blocks hr hlt

/-- Wherever in the run a response comes in, the room it comes to and the response are as `P` says. -/
def EveryResponse (room : LiveMeetingRoom) (calls : List Call) (P : LiveMeetingRoom → JsonObject → MessageEnv → Prop) :
    Prop :=
  ∀ (pre post : List Call) (message : Bytes) (json : JsonObject) (env : MessageEnv),
    JsonObject.read_from_string {} message = some json → message_opcode json ∈ requestTypes →
    calls = pre ++ .message (some json) env :: post → P (final step room pre) json env

/-- All responses of a run release the throttle exactly if those with another status code
come while no request is in flight. -/
theorem every_response_releases_iff (video_ssrc audio_ssrc : UInt32) (video_push_port audio_push_port : UInt16)
    (calls : List Call) :
    EveryResponse (new video_ssrc audio_ssrc video_push_port audio_push_port) calls
        (fun room json env => (room.on_websocket_message (some json) env).1.m_is_signal_running = false) ↔
      EveryResponse (new video_ssrc audio_ssrc video_push_port audio_push_port) calls
        (fun room json _ => status_code json = ascii "200" ∨ room.m_is_signal_running = false) := by
  constructor
  · intro h pre post message json env hread hop hcalls
    exact (response_releases _ env hop).1 (h pre post message json env hread hop hcalls)
  · intro h pre post message json env hread hop hcalls
    exact (response_releases _ env hop).2 (h pre post message json env hread hop hcalls)

/-- The answer to a create request of a user the server does not know. -/
def refusal : Bytes := ascii "\x7b\"code\":\"404\",\"opcode\":\"1000\"\x7d"

/-- The room goes on waiting for the answer it has got. -/
theorem not_every_response_releases :
    ¬ ∀ calls, EveryResponse (new 0 0 0 0) calls
      (fun room json env => (room.on_websocket_message (some json) env).1.m_is_signal_running = false) := by
  intro h
  have hread : ∃ json, JsonObject.read_from_string {} refusal = some json ∧ message_opcode json ∈ requestTypes ∧
      status_code json ≠ ascii "200" := by
    refine ⟨(JsonObject.read_from_string {} refusal).get (by decide +kernel), ?_, ?_, ?_⟩
    · exact (Option.some_get _).symm
    · decide +kernel
    · decide +kernel
  obtain ⟨json, hread, hop, hcode⟩ := hread
  have hflag := (response_releases _ _ hop).1 (h ([.init (ascii "10.0.0.1") 8080 true true true, create 0] ++
    [.message (some json) sampleEnv]) _ [] refusal json sampleEnv hread hop rfl)
  have hrunning : (final step (new 0 0 0 0)
      [.init (ascii "10.0.0.1") 8080 true true true, create 0]).m_is_signal_running = true := by decide
  rw [hrunning] at hflag
  exact hflag.elim hcode Bool.noConfusion

/-! ## Starting again -/

/-- In no conference, and no request is in flight. -/
def Idle (room : LiveMeetingRoom) : Prop :=
  room.m_my_room_id = [] ∧ room.m_my_user_uuid = [] ∧ room.m_is_signal_running = false

/-- Nothing is refused because of an earlier session: a request to enter is sent if it can be. -/
def Open (room : LiveMeetingRoom) : Prop :=
  ∀ (conferenceId myUserId myUserName : Bytes) (env : SignalEnv),
    (room.signal_create_conference myUserId myUserName env).code =
        (if env.sent then 0 else ERROR_WEBSOCKET_NOT_CONNECTED) ∧
      (room.signal_join_conference conferenceId myUserId myUserName env).code =
        (if env.sent then 0 else ERROR_WEBSOCKET_NOT_CONNECTED)

/-- The state a session starts in. -/
def Clean (room : LiveMeetingRoom) : Prop :=
  room.Idle ∧ room.m_other_users_map = [] ∧ room.Open

theorem init_success {room : LiveMeetingRoom} {ip : Bytes} {port : UInt16} {thread audio video : Bool}
    (h : (room.init ip port thread audio video).2 = true) :
    (room.init ip port thread audio video).1.m_websocket_client.isSome = true ∧
      (room.m_other_users_map = [] → (room.init ip port thread audio video).1.m_other_users_map = []) := by
  revert h
  unfold init
  cases room.m_initialized <;> cases thread <;> cases audio <;> cases video <;>
    first | exact fun h => ⟨rfl, fun ho => ho⟩ | exact fun h => ⟨rfl, fun _ => rfl⟩ | exact fun h => Bool.noConfusion h

theorem send_request_code (room : LiveMeetingRoom) (env : SignalEnv) (cmd : Int) (params : JsonObject) :
    (room.send_request env cmd params).code = if env.sent then 0 else ERROR_WEBSOCKET_NOT_CONNECTED := by
  unfold send_request
  split <;> rfl

theorem Idle.enters {room : LiveMeetingRoom} (h : room.Idle) (hc : room.m_websocket_client.isSome = true)
    (env : SignalEnv) (cmd : Int) (params : JsonObject) (update : LiveMeetingRoom → LiveMeetingRoom) :
    (room.signal_enter env cmd params update).code = if env.sent then 0 else ERROR_WEBSOCKET_NOT_CONNECTED := by
  obtain ⟨hroom, huser, hflag⟩ := h
  have hclient : ¬ room.m_websocket_client.isNone = true := by
    rw [Option.isNone_iff_eq_none, ← Option.not_isSome_iff_eq_none, hc]
    exact fun hn => hn rfl
  have hids : ¬ (room.m_my_room_id.length != 0 || room.m_my_user_uuid.length != 0) = true := by simp [hroom, huser]
  have hthrottle : room.throttle env.nowSeconds =
      some { room with m_is_signal_running := true, m_prev_signal_time := env.nowSeconds } := by
    rw [throttle, hflag, Bool.false_and, if_neg Bool.false_ne_true]
  rw [signal_enter, if_neg hclient, if_neg hids, hthrottle]
  exact send_request_code _ env cmd params

/-- Un-initialising and initialising keep the identifiers and the throttle. -/
theorem restart_idle (room : LiveMeetingRoom) (ip : Bytes) (port : UInt16) (thread audio video : Bool) :
    (room.un_init.init ip port thread audio video).1.Idle ↔ room.Idle := by
  have hm : (room.un_init.init ip port thread audio video).1.membership = room.membership :=
    init_membership room.un_init ip port thread audio video
  have hroom := congrArg Membership.room_id hm
  have huser := congrArg Membership.user_uuid hm
  have hflag := congrArg Membership.signal_running hm
  dsimp only [membership] at hroom huser hflag
  unfold Idle
  rw [hroom, huser, hflag]

theorem restart_clean {room : LiveMeetingRoom} {ip : Bytes} {port : UInt16} {thread audio video : Bool}
    (h : (room.un_init.init ip port thread audio video).2 = true) :
    (room.un_init.init ip port thread audio video).1.Clean ↔ room.Idle := by
  rw [← restart_idle room ip port thread audio video]
  constructor
  · exact fun hclean => hclean.1
  · intro hidle
    obtain ⟨hclient, hothers⟩ := init_success h
    refine ⟨hidle, hothers rfl, fun conferenceId myUserId myUserName env => ⟨?_, ?_⟩⟩
    · exact hidle.enters hclient env _ _ _
    · exact hidle.enters hclient env _ _ _

/-- Wherever in the run the room is un-initialised and then initialised with success, the rooms before
and after it are as `P` says. -/
def EveryRestart (room : LiveMeetingRoom) (calls : List Call) (P : LiveMeetingRoom → LiveMeetingRoom → Prop) : Prop :=
  ∀ (pre post : List Call) (ip : Bytes) (port : UInt16) (thread audio video : Bool),
    calls = pre ++ .un_init :: .init ip port thread audio video :: post →
    ((final step room pre).un_init.init ip port thread audio video).2 = true →
    P (final step room pre) (final step room (pre ++ [.un_init, .init ip port thread audio video]))

/-- Every restart of a run gives a clean room exactly if the room has left its conference and
has an answer to every request before. -/
theorem every_restart_clean_iff (video_ssrc audio_ssrc : UInt32) (video_push_port audio_push_port : UInt16)
    (calls : List Call) :
    EveryRestart (new video_ssrc audio_ssrc video_push_port audio_push_port) calls (fun _ after => after.Clean) ↔
      EveryRestart (new video_ssrc audio_ssrc video_push_port audio_push_port) calls (fun before _ => before.Idle) := by
  have hafter : ∀ pre ip port thread audio video,
      final step (new video_ssrc audio_ssrc video_push_port audio_push_port)
          (pre ++ [.un_init, .init ip port thread audio video]) =
        ((final step (new video_ssrc audio_ssrc video_push_port audio_push_port) pre).un_init.init ip port thread
          audio video).1 := fun pre ip port thread audio video => final_append step _ pre _
  constructor
  · intro h pre post ip port thread audio video hcalls hok
    have hclean := h pre post ip port thread audio video hcalls hok
    rw [hafter] at hclean
    exact (restart_clean hok).1 hclean
  · intro h pre post ip port thread audio video hcalls hok
    rw [hafter]
    exact (restart_clean hok).2 (h pre post ip port thread audio video hcalls hok)

/-- The room is un-initialised while it is in a conference. -/
theorem not_every_restart_clean :
    ¬ ∀ calls, EveryRestart (new 0 0 0 0) calls (fun _ after => after.Clean) := by
  intro h
  have hclean := h ([.init (ascii "10.0.0.1") 8080 true true true, create 0, created 100] ++
    [.un_init, .init (ascii "10.0.0.1") 8080 true true true]) _ [] _ _ _ _ _ rfl (by decide +kernel)
  obtain ⟨⟨hroom, -⟩, -⟩ := hclean
  revert hroom
  decide +kernel

end LiveMeetingRoom

end RtcClient
