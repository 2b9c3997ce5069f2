import RtcClient.App.Messages
import RtcClient.App.Told
import RtcClient.Websocket.ClientTexts
import RtcClient.Websocket.ClientWire
/-!
# Signalling

A room and its client, from a successful `initialize` on. The requests of the room are
texts the client sends, and the texts the client receives are messages of the room
(`client_run`, `room_run`). On each connection the server reads requests the room has
accepted, in order (`requests_read`), and the room processes what the server says, each
message once and in order (`messages_processed`).
-/

namespace RtcClient

open Lib

def MG_EV_CLOSE : Int := 8
def MG_EV_WS_OPEN : Int := 11

namespace LiveMeetingRoom

/-- The calls between `initialize` and `un_initialize` that do not come from the client. -/
def Call.local : Call → Bool
  | .init _ _ _ _ _ | .un_init | .message _ _ | .event _ => false
  | _ => true

/-- Whether a request can be sent is up to the client. -/
def Call.withSent (sent : Bool) : Call → Call
  | .signal_create_conference id name env => .signal_create_conference id name { env with sent := sent }
  | .signal_join_conference conf id name env => .signal_join_conference conf id name { env with sent := sent }
  | .signal_start_pull_stream streams env => .signal_start_pull_stream streams { env with sent := sent }
  | .signal_stop_pull_stream streams env => .signal_stop_pull_stream streams { env with sent := sent }
  | .signal_exit_conference env => .signal_exit_conference { env with sent := sent }
  | .signal_stop_conference env => .signal_stop_conference { env with sent := sent }
  | .signal_online_users env => .signal_online_users { env with sent := sent }
  | .signal_heartbeat uuid conf _ => .signal_heartbeat uuid conf sent
  | c => c

/-- The request that was sent. -/
def Output.request : Output → Option JsonObject
  | .signal _ request => request
  | _ => Option.none

/-- The request of an operation that has returned 0, if it is one. -/
def accepted : Call × Output → Option (Option JsonObject)
  | (_, .signal code request) => if code = 0 then some request else none
  | _ => none

/-- The message a call has processed. -/
def messageOf : Call × Output → Option (Option JsonObject)
  | (.message json _, .conference _) => some json
  | _ => none

end LiveMeetingRoom

/-- The steps in `mg_mgr_poll`. -/
def ClientStep.polls : ClientStep → Bool
  | .timer _ _ | .resolve _ _ | .turn _ _ => true
  | _ => false

/-- `send_text` takes a text. -/
def WSClientState.ready (w : WSClientState) : Bool := w.m_connection.isSome && w.m_connected

/-- A room and its client. -/
structure Signalling where
  room : LiveMeetingRoom
  client : WSClientState

/-- A call of the application or a round of the receive thread, or a step of the websocket thread. `env i` is what the
system answers while the message is processed that is the `i`-th output of the step. -/
inductive SignallingStep where
  | call (c : LiveMeetingRoom.Call) (h : c.local = true)
  | pulse (s : ClientStep) (h : s.polls = true) (env : Nat → MessageEnv)

/-- The calls of the room, the outputs of the client, and the request that was sent, with its connection. -/
structure SignallingOut where
  calls : List (LiveMeetingRoom.Call × LiveMeetingRoom.Output)
  client : List ClientOut
  asked : Option (Nat × JsonObject)

namespace Signalling

/-- `websocket_received` and `websocket_event`. -/
def callback (env : MessageEnv) : ClientOut → Option LiveMeetingRoom.Call
  | .text data len => some (.message (JsonObject.read_from_string {} (data.take len)) env)
  | .opened => some (.event MG_EV_WS_OPEN)
  | .closed => some (.event MG_EV_CLOSE)
  | _ => none

section
variable (stream_double : Float → Bytes) (random : Nat → Nat → Block 4)

/-- The client after a call of the room: a request is its text, which `send_text` takes if the connection is open. -/
def send (w : WSClientState) (request : Option JsonObject) : WSClientState × List ClientOut :=
  match request with
  | none => (w, [])
  | some request => w.send_text random (request_text stream_double request)

def step (s : Signalling) : SignallingStep → Signalling × SignallingOut
  | .call c _ =>
    let c := c.withSent s.client.ready
    let r := s.room.step c
    let w := send stream_double random s.client r.2.request
    (⟨r.1, w.1⟩, ⟨[(c, r.2)], w.2, r.2.request.bind fun request => s.client.m_connection.map (·, request)⟩)
  | .pulse t _ env =>
    let w := s.client.step random t
    let calls := w.2.zipIdx.filterMap fun o => callback (env o.2) o.1
    (⟨final LiveMeetingRoom.step s.room calls, w.1⟩, ⟨trace LiveMeetingRoom.step s.room calls, w.2, none⟩)

/-- `initialize`, when all goes well. -/
def start (room : LiveMeetingRoom) (ip : Bytes) (port : UInt16) (nonce : Block 16) (answer : ConnectAnswer) :
    Signalling × List ClientOut :=
  let w := WSClientState.init random (LiveMeetingRoom.websocket_address ip port) nonce answer
  (⟨(room.init ip port true true true).1, { w.1 with m_recv_func := true, m_ws_func := true }⟩, w.2)

end

/-! ## The parts of a run -/

section
variable {stream_double : Float → Bytes} {random : Nat → Nat → Block 4}

/-- The room's part of a run is a run of the room. -/
theorem room_run (steps : List SignallingStep) (s : Signalling) :
    let calls := (trace (step stream_double random) s steps).flatMap (·.2.calls)
    (final (step stream_double random) s steps).room = final LiveMeetingRoom.step s.room (calls.map (·.1)) ∧
      calls = trace LiveMeetingRoom.step s.room (calls.map (·.1)) := by
  have hinputs (room : LiveMeetingRoom) (calls : List LiveMeetingRoom.Call) :
      (trace LiveMeetingRoom.step room calls).map (·.1) = calls := by
    induction calls generalizing room with
    | nil => rfl
    | cons c calls ih => rw [trace_cons, List.map_cons, ih]
  induction steps generalizing s with
  | nil => exact ⟨rfl, rfl⟩
  | cons t steps ih =>
    obtain ⟨hfinal, htrace⟩ := ih (s.step stream_double random t).1
    have hstep : (s.step stream_double random t).1.room =
          final LiveMeetingRoom.step s.room ((s.step stream_double random t).2.calls.map (·.1)) ∧
        (s.step stream_double random t).2.calls =
          trace LiveMeetingRoom.step s.room ((s.step stream_double random t).2.calls.map (·.1)) := by
      cases t with
      | call c h => exact ⟨rfl, rfl⟩
      | pulse t h env => exact ⟨by simp only [step, hinputs], by simp only [step, hinputs]⟩
    simp only [final_cons, trace_cons, List.flatMap_cons, List.map_append, final_append, trace_append]
    rw [← hstep.1, ← hstep.2, ← htrace]
    exact ⟨hfinal, rfl⟩

/-- What a step does to the client. -/
def clientStep (stream_double : Float → Bytes) (s : Signalling) : SignallingStep → List ClientStep
  | .call c _ =>
    let r := s.room.step (c.withSent s.client.ready)
    (r.2.request.map fun request => .send_text (request_text stream_double request)).toList
  | .pulse t _ _ => [t]

def clientSteps (stream_double : Float → Bytes) (random : Nat → Nat → Block 4) (s : Signalling) :
    List SignallingStep → List ClientStep
  | [] => []
  | t :: steps => s.clientStep stream_double t ++ clientSteps stream_double random (s.step stream_double random t).1 steps

/-- The client's part of a run is a run of the client. -/
theorem client_run (steps : List SignallingStep) (s : Signalling) :
    (final (step stream_double random) s steps).client =
        final (WSClientState.step random) s.client (clientSteps stream_double random s steps) ∧
      WSClientState.run_outs random s.client (clientSteps stream_double random s steps) =
        (trace (step stream_double random) s steps).flatMap (·.2.client) := by
  induction steps generalizing s with
  | nil => exact ⟨rfl, rfl⟩
  | cons t steps ih =>
    obtain ⟨hfinal, houts⟩ := ih (s.step stream_double random t).1
    have hstep : (s.step stream_double random t).1.client =
          final (WSClientState.step random) s.client (s.clientStep stream_double t) ∧
        WSClientState.run_outs random s.client (s.clientStep stream_double t) =
          (s.step stream_double random t).2.client := by
      cases t with
      | call c h =>
        simp only [step, clientStep]
        cases ((s.room.step (c.withSent s.client.ready)).2.request) with
        | none => exact ⟨rfl, rfl⟩
        | some request => exact ⟨rfl, List.append_nil _⟩
      | pulse t h env => exact ⟨rfl, List.append_nil _⟩
    rw [clientSteps, final_cons, trace_cons, List.flatMap_cons, final_append, ← hstep.1, hfinal, ← houts]
    refine ⟨rfl, ?_⟩
    rw [WSClientState.run_outs, trace_append, List.flatMap_append, ← hstep.1, ← hstep.2]
    rfl

end

end Signalling

/-! ## Requests -/

namespace LiveMeetingRoom

/-- A request operation returns 0 exactly if it has sent its request, which `app_get_request` has made. -/
structure Sends (sent : Bool) (r : SignalResult) : Prop where
  zero : r.code = 0 ↔ r.request.isSome = true
  sent : r.request.isSome = true → sent = true
  app : ∀ request ∈ r.request, ∃ cmd uuid params, request = app_request_json cmd uuid params

theorem Sends.refused {sent : Bool} {room : LiveMeetingRoom} {code : Int} (h : code ≠ 0) :
    Sends sent ⟨room, code, none⟩ :=
  ⟨iff_of_false h Bool.false_ne_true, fun h => absurd h Bool.false_ne_true, fun _ h => nomatch h⟩

theorem Sends.made {sent : Bool} (h : sent = true) (room : LiveMeetingRoom) (cmd : Int) (uuid : Bytes)
    (params : JsonObject) : Sends sent ⟨room, 0, some (app_request_json cmd uuid params)⟩ :=
  ⟨iff_of_true rfl rfl, fun _ => h, fun _ hr => ⟨cmd, uuid, params, (Option.some.inj hr).symm⟩⟩

theorem send_request_sends (room : LiveMeetingRoom) (env : SignalEnv) (cmd : Int) (params : JsonObject) :
    Sends env.sent (room.send_request env cmd params) := by
  unfold send_request
  split
  · rename_i h
    exact .made h _ _ _ _
  · exact .refused (by decide)

theorem signal_enter_sends (room : LiveMeetingRoom) (env : SignalEnv) (cmd : Int) (params : JsonObject)
    (update : LiveMeetingRoom → LiveMeetingRoom) : Sends env.sent (room.signal_enter env cmd params update) := by
  unfold signal_enter
  split
  · exact .refused (by decide)
  split
  · exact .refused (by decide)
  split
  · exact .refused (by decide)
  · exact send_request_sends _ env cmd params

theorem signal_inside_sends (room : LiveMeetingRoom) (env : SignalEnv) (cmd : Int) :
    Sends env.sent (room.signal_inside env cmd) := by
  unfold signal_inside
  split
  · exact .refused (by decide)
  split
  · exact .refused (by decide)
  split
  · exact .refused (by decide)
  · exact send_request_sends _ env cmd _

theorem signal_streams_sends (room : LiveMeetingRoom) (env : SignalEnv) (cmd : Int) (streams : Streams) :
    Sends env.sent (room.signal_streams env cmd streams).1 := by
  unfold signal_streams
  split
  · exact .refused (by decide)
  split
  · exact .refused (by decide)
  dsimp only
  split
  · exact .refused (by decide)
  split
  · exact .refused (by decide)
  · exact send_request_sends _ env cmd _

theorem signal_heartbeat_sends (room : LiveMeetingRoom) (uuid conf : Bytes) (sent : Bool) :
    Sends sent (room.signal_heartbeat uuid conf sent) := by
  unfold signal_heartbeat
  split
  · exact .refused (by decide)
  split
  · rename_i h
    exact .made h _ _ _ _
  · exact .refused (by decide)

/-- What a call has sent is the request it returns 0 for. -/
structure Asks (sent : Bool) (r : Call × Output) : Prop where
  accepted : accepted r = r.2.request.map some
  sent : r.2.request.isSome = true → sent = true
  app : ∀ request ∈ r.2.request, ∃ cmd uuid params, request = app_request_json cmd uuid params

theorem Sends.asks {sent : Bool} {r : SignalResult} (h : Sends sent r) (c : Call) :
    Asks sent (c, .signal r.code r.request) := by
  refine ⟨?_, h.sent, h.app⟩
  change (if r.code = 0 then some r.request else none) = r.request.map some
  have hzero := h.zero
  cases hr : r.request with
  | none =>
    rw [hr] at hzero
    exact if_neg fun h0 => absurd (hzero.1 h0) Bool.false_ne_true
  | some request =>
    rw [hr] at hzero
    exact if_pos (hzero.2 rfl)

theorem local_asks (room : LiveMeetingRoom) {c : Call} (hc : c.local = true) (sent : Bool) :
    Asks sent (c.withSent sent, (room.step (c.withSent sent)).2) := by
  cases c with
  | init | un_init | message | event => cases hc
  | signal_create_conference id name env => exact (signal_enter_sends room { env with sent := sent } _ _ _).asks _
  | signal_join_conference conf id name env => exact (signal_enter_sends room { env with sent := sent } _ _ _).asks _
  | signal_start_pull_stream streams env => exact (signal_streams_sends room { env with sent := sent } _ _).asks _
  | signal_stop_pull_stream streams env => exact (signal_streams_sends room { env with sent := sent } _ _).asks _
  | signal_exit_conference env => exact (signal_inside_sends room { env with sent := sent } _).asks _
  | signal_stop_conference env => exact (signal_inside_sends room { env with sent := sent } _).asks _
  | signal_online_users env => exact (signal_inside_sends room { env with sent := sent } _).asks _
  | signal_heartbeat => exact (signal_heartbeat_sends room _ _ _).asks _
  | _ => exact ⟨rfl, fun h => absurd h Bool.false_ne_true, fun _ h => nomatch h⟩

/-- The texts the room asks the client to send are those of `app_get_request`. -/
theorem local_texts (stream_double : Float → Bytes) (room : LiveMeetingRoom) {c : Call} (hc : c.local = true)
    (sent : Bool) {request : JsonObject} (hr : (room.step (c.withSent sent)).2.request = some request) :
    ∃ cmd uuid params, request_text stream_double request = app_get_request_object stream_double cmd uuid params := by
  obtain ⟨cmd, uuid, params, rfl⟩ := (local_asks room hc sent).app request hr
  exact ⟨cmd, uuid, params, rfl⟩

theorem messageOf_local {c : Call} (hc : c.local = true) (sent : Bool) (out : Output) :
    messageOf (c.withSent sent, out) = none := by
  cases c with
  | init | un_init | message | event => cases hc
  | _ => rfl

end LiveMeetingRoom

namespace Signalling

open WSClientState

section
variable {stream_double : Float → Bytes} {random : Nat → Nat → Block 4}

/-- The texts of the requests made on connection `k`. -/
def textsOn (stream_double : Float → Bytes) (k : Nat) (asked : List (Nat × JsonObject)) : List Bytes :=
  (asked.filter (·.1 = k)).map fun a => request_text stream_double a.2

theorem texts_append (fs fs' : List (UInt8 × Bytes)) : texts (fs ++ fs') = texts fs ++ texts fs' := by
  rw [texts, List.filter_append, List.map_append]
  rfl

theorem texts_mute {outs : List ClientOut} (h : Mute outs) (k : Nat) : texts (queued k outs) = [] := by
  rw [(h k).2]
  rfl

theorem texts_single (msg : Bytes) : texts [(WEBSOCKET_OP_TEXT, msg)] = [msg] := by
  have hop : WEBSOCKET_OP_TEXT &&& 15 = WEBSOCKET_OP_TEXT := by decide
  simp [texts, hop]

theorem texts_queued (k' k : Nat) (op : UInt8) (msg : Bytes) {after : List ClientOut} (h : Mute after) :
    texts (queued k (.queued k' op msg :: after)) = if k' = k then texts [(op, msg)] else [] := by
  obtain ⟨-, hsame, hother⟩ := (@queued_touches { id := k' } op msg) h
  split
  · rename_i hk
    subst hk
    rw [hsame]
  · rename_i hk
    rw [(hother k (Ne.symm hk)).2]
    rfl

/-- A poll queues no text. -/
theorem poll_texts {w w' : WSClientState} {t : ClientStep} (ht : t.polls = true) {outs : List ClientOut}
    (hdoes : Does random w t w' outs) (k : Nat) : texts (queued k outs) = [] := by
  cases hdoes with
  | stays _ _ h => rcases h with rfl | rfl <;> rfl
  | set_text_received_func | set_ws_event_func | send_text => cases ht
  | no_connect _ h =>
    rcases h with rfl | rfl
    · rfl
    · exact texts_mute (.closed_out w) k
  | @connect nonce answer before _ _ h =>
    have hbefore : Mute before := by
      rcases h with ⟨-, rfl⟩ | rfl
      · exact .nil
      · exact .closed_out w
    exact texts_mute (hbefore.append (.sockets answer)) k
  | ping _ _ =>
    rw [texts_queued _ _ _ _ .nil]
    split <;> rfl
  | resolved socket _ _ => exact texts_mute (.option (f := ClientOut.socket) (fun _ _ => ⟨rfl, rfl⟩) socket.fd) k
  | not_resolved => rfl
  | @turn c _ _ _ =>
    rw [queued_append, (Mute.handle _ w k).2, queued_wrote]
    rfl
  | @close c _ _ _ =>
    rw [queued_append, queued_append, queued_append, (Mute.handle _ w k).2, queued_wrote,
      (Mute.option (f := ClientOut.closesocket) (fun _ _ => ⟨rfl, rfl⟩) _ k).2, (Mute.closed_out w k).2]
    rfl

theorem callback_accepted {env : MessageEnv} {o : ClientOut} {c : LiveMeetingRoom.Call}
    (h : callback env o = some c) (room : LiveMeetingRoom) : LiveMeetingRoom.accepted (c, (room.step c).2) = none := by
  cases o with
  | text data len =>
    cases h
    simp only [LiveMeetingRoom.step]
    split <;> rfl
  | opened | closed =>
    cases h
    simp only [LiveMeetingRoom.step]
    split <;> rfl
  | _ => cases h

/-- What a step asks is what it queues, and what its operations return 0 for. -/
structure Asked (stream_double : Float → Bytes) (random : Nat → Nat → Block 4) (s : Signalling) (t : SignallingStep) :
    Prop where
  queued : ∀ k, texts (queued k (s.step stream_double random t).2.client) =
    textsOn stream_double k (s.step stream_double random t).2.asked.toList
  accepted : (s.step stream_double random t).2.calls.filterMap LiveMeetingRoom.accepted =
    (s.step stream_double random t).2.asked.toList.map fun a => some a.2
  sent : ∀ msg, .send_text msg ∈ s.clientStep stream_double t →
    ∃ a ∈ (s.step stream_double random t).2.asked, request_text stream_double a.2 = msg

/-- A text that can be sent is queued on the connection. -/
theorem send_text_queued {w : WSClientState} (h : w.Holds) (hsent : w.ready = true)
    (msg : Bytes) : ∃ k, w.m_connection = some k ∧
      (w.send_text random msg).2 = [.queued k WEBSOCKET_OP_TEXT msg, .returned true] := by
  rcases h with ⟨-, hptr, -⟩ | ⟨c, hconns, hptr, -, -⟩
  · rw [ready, hptr] at hsent
    cases hsent
  · refine ⟨c.id, hptr, ?_⟩
    rw [ready] at hsent
    rw [send_text, if_pos hsent, ws_send, hptr, Option.bind_some, conn_one hconns, if_pos rfl]
    rfl

theorem call_asked {s : Signalling} (h : s.client.Holds) {c : LiveMeetingRoom.Call} (hc : c.local = true) :
    Asked stream_double random s (.call c hc) := by
  have hasks := s.room.local_asks hc s.client.ready
  cases hreq : (s.room.step (c.withSent s.client.ready)).2.request with
  | none =>
    have hnone := hasks.accepted
    rw [hreq] at hnone
    refine ⟨fun k => ?_, ?_, fun msg hmsg => ?_⟩
    · simp only [step, send, hreq]
      rfl
    · simp only [step, hreq, List.filterMap_cons_none hnone]
      rfl
    · simp [clientStep, hreq] at hmsg
  | some request =>
    have hsome := hasks.accepted
    have hsent := hasks.sent
    rw [hreq] at hsome hsent
    obtain ⟨k', hptr, hqueued⟩ := (@send_text_queued random) h (hsent rfl) (request_text stream_double request)
    refine ⟨fun k => ?_, ?_, fun msg hmsg => ?_⟩
    · simp only [step, send, hreq, hqueued, hptr, Option.bind_some, Option.map_some, Option.toList_some, textsOn]
      rw [texts_queued _ _ _ _ fun _ => ⟨rfl, rfl⟩]
      by_cases hk : k' = k
      · simp only [hk, if_true, List.filter_cons, decide_true, List.filter_nil, List.map_cons, List.map_nil,
          texts_single]
      · simp [hk]
    · simp only [step, hreq, hptr, List.filterMap_cons_some hsome]
      rfl
    · simp only [clientStep, hreq] at hmsg
      obtain rfl : msg = request_text stream_double request := by simpa using hmsg
      exact ⟨(k', request), by simp [step, hreq, hptr], rfl⟩

theorem pulse_asked {s : Signalling} (h : s.client.Holds) {t : ClientStep} (ht : t.polls = true)
    (env : Nat → MessageEnv) : Asked stream_double random s (.pulse t ht env) where
  queued := poll_texts ht (step_does h t)
  accepted := by
    have hcalls (room : LiveMeetingRoom) (calls : List LiveMeetingRoom.Call)
        (hfrom : ∀ c ∈ calls, ∃ env o, callback env o = some c) :
        (trace LiveMeetingRoom.step room calls).filterMap LiveMeetingRoom.accepted = [] := by
      induction calls generalizing room with
      | nil => rfl
      | cons c calls ih =>
        rw [List.forall_mem_cons] at hfrom
        obtain ⟨⟨env, o, hc⟩, hrest⟩ := hfrom
        rw [trace_cons, List.filterMap_cons_none (callback_accepted hc room)]
        exact ih _ hrest
    refine hcalls _ _ fun c hc => ?_
    obtain ⟨o, -, ho⟩ := List.mem_filterMap.1 hc
    exact ⟨_, _, ho⟩
  sent := by
    intro msg hmsg
    rw [clientStep, List.mem_singleton] at hmsg
    subst hmsg
    cases ht

theorem step_asked {s : Signalling} (h : s.client.Holds) (t : SignallingStep) : Asked stream_double random s t := by
  cases t with
  | call c hc => exact call_asked h hc
  | pulse t ht env => exact pulse_asked h ht env

theorem step_client (s : Signalling) (t : SignallingStep) :
    (s.step stream_double random t).1.client =
      final (WSClientState.step random) s.client (s.clientStep stream_double t) := by
  cases t with
  | call c h =>
    simp only [step, clientStep]
    cases (s.room.step (c.withSent s.client.ready)).2.request <;> rfl
  | pulse t h env => rfl

theorem asked_run (steps : List SignallingStep) : ∀ {s : Signalling}, s.client.Holds →
    let history := trace (step stream_double random) s steps
    (∀ k, texts (queued k (history.flatMap (·.2.client))) =
        textsOn stream_double k (history.filterMap (·.2.asked))) ∧
      (history.flatMap (·.2.calls)).filterMap LiveMeetingRoom.accepted =
        (history.filterMap (·.2.asked)).map (fun a => some a.2) ∧
      ∀ msg, .send_text msg ∈ clientSteps stream_double random s steps →
        ∃ r ∈ history, ∃ a ∈ r.2.asked, request_text stream_double a.2 = msg := by
  induction steps with
  | nil =>
    intro s _
    exact ⟨fun _ => rfl, rfl, fun _ hmsg => by cases hmsg⟩
  | cons t steps ih =>
    intro s h
    have ht := (@step_asked stream_double random) h t
    have hnext : (s.step stream_double random t).1.client.Holds := by
      rw [step_client]
      exact run_holds random h _
    obtain ⟨hqueued, haccepted, hsent⟩ := ih hnext
    simp only [trace_cons, List.flatMap_cons, filterMap_cons_toList]
    refine ⟨fun k => ?_, ?_, fun msg hmsg => ?_⟩
    · rw [queued_append, texts_append, ht.queued k, hqueued k, textsOn, textsOn, textsOn, List.filter_append,
        List.map_append]
    · rw [List.filterMap_append, ht.accepted, haccepted, List.map_append]
    · rw [clientSteps] at hmsg
      rcases List.mem_append.1 hmsg with hmsg | hmsg
      · exact ⟨_, List.mem_cons_self, ht.sent msg hmsg⟩
      · obtain ⟨r, hr, ha⟩ := hsent msg hmsg
        exact ⟨r, List.mem_cons_of_mem _ hr, ha⟩

end

/-- The address that `initialize` makes of an IP address and a port is taken apart into the same IP address and port,
as long as the IP address has none of the characters that end a host. -/
theorem wsaddress_parsed {ip : Bytes} (hip : ∀ c ∈ ip, Plain c) (hlen : ip.length < 2 ^ 63) (port : UInt16) :
    mg_url_host (LiveMeetingRoom.websocket_address ip port) = ip ∧
      mg_url_port (LiveMeetingRoom.websocket_address ip port) = port.toNat ∧
      mg_url_uri (LiveMeetingRoom.websocket_address ip port) = ascii "/rtc_signal" :=
  @address_parsed ip (ascii "rtc_signal") hip hlen (by decide +kernel) port.toNat port.toNat_lt

theorem wsaddress_parsed_local :
    mg_url_host (LiveMeetingRoom.websocket_address (ascii "127.0.0.1") 8080) = ascii "127.0.0.1" ∧
      mg_url_port (LiveMeetingRoom.websocket_address (ascii "127.0.0.1") 8080) = (8080 : UInt16).toNat ∧
      mg_url_uri (LiveMeetingRoom.websocket_address (ascii "127.0.0.1") 8080) = ascii "/rtc_signal" :=
  wsaddress_parsed (by decide +kernel) (by decide +kernel) 8080

theorem websocket_address_printable {ip : Bytes} (hip : ∀ c ∈ ip, 32 ≤ c) (port : UInt16) :
    ∀ c ∈ LiveMeetingRoom.websocket_address ip port, 32 ≤ c := by
  have hdigit : ∀ c, isdigit c = true → 32 ≤ c := of_byte_values (by decide +kernel)
  intro c hc
  simp only [LiveMeetingRoom.websocket_address, List.mem_append] at hc
  rcases hc with (((hc | hc) | hc) | hc) | hc
  · exact (show ∀ c ∈ ascii "ws://", 32 ≤ c by decide +kernel) c hc
  · exact hip c hc
  · exact (show ∀ c ∈ ascii ":", 32 ≤ c by decide +kernel) c hc
  · exact hdigit c (isdigit_common_to_string _ c hc)
  · exact (show ∀ c ∈ ascii "/rtc_signal", 32 ≤ c by decide +kernel) c hc

/-- Of the requests the room has accepted, the server reads on each connection those that were made while it was
open, each once and in order, up to some point. Every operation that has returned 0 has made its request on some
connection. -/
theorem requests_read (stream_double : Float → Bytes) (random : Nat → Nat → Block 4) (room : LiveMeetingRoom)
    {ip : Bytes} (hip : ∀ c ∈ ip, 32 ≤ c) (port : UInt16) (nonce : Block 16) (answer : ConnectAnswer)
    (steps : List SignallingStep)
    (hsize : ∀ r ∈ trace (step stream_double random) (start random room ip port nonce answer).1 steps,
      ∀ a ∈ r.2.asked, (request_text stream_double a.2).length ≤ 2 ^ 30) :
    let begun := start random room ip port nonce answer
    let history := trace (step stream_double random) begun.1 steps
    let asked := history.filterMap (·.2.asked)
    (∀ k, texts (server_frames (wire k (begun.2 ++ history.flatMap (·.2.client)))) <+: textsOn stream_double k asked) ∧
      (history.flatMap (·.2.calls)).filterMap LiveMeetingRoom.accepted = asked.map (fun a => some a.2) := by
  intro begun history asked
  have hholds : begun.1.client.Holds :=
    run_holds random (init_holds random _ nonce answer) [.set_text_received_func true, .set_ws_event_func true]
  obtain ⟨hqueued, haccepted, hsent⟩ := (@asked_run stream_double random) steps hholds
  refine ⟨fun k => ?_, haccepted⟩
  have hsizes : ∀ msg, .send_text msg ∈ (.set_text_received_func true :: .set_ws_event_func true ::
      clientSteps stream_double random begun.1 steps : List ClientStep) → msg.length ≤ 2 ^ 30 := by
    intro msg hmsg
    obtain ⟨r, hr, a, ha, rfl⟩ := hsent msg (by simpa using hmsg)
    exact hsize r hr a ha
  have hstories := (@run_stories random) _ hsizes
    (init_holds random (LiveMeetingRoom.websocket_address ip port) nonce answer) (init_stories nonce answer)
  have hprefix := stories_texts hstories (websocket_address_printable hip port) k
  have hbegun : texts (queued k begun.2) = [] :=
    poll_texts rfl ((@on_timer_does random) (.idle rfl rfl rfl) nonce answer) k
  have houts : run_outs random begun.1.client (clientSteps stream_double random begun.1 steps) =
      history.flatMap (·.2.client) := (client_run steps begun.1).2
  change texts (server_frames (wire k (begun.2 ++ run_outs random begun.1.client _))) <+:
    texts (queued k (begun.2 ++ run_outs random begun.1.client _)) at hprefix
  rw [houts, queued_append, texts_append, hbegun, List.nil_append, hqueued k] at hprefix
  exact hprefix

/-- A client that has connected at once. -/
def sampleStart : Signalling × List ClientOut :=
  start (fun _ _ => .zeros 4) (LiveMeetingRoom.new 0 0 0 0) (ascii "127.0.0.1") 80 (.zeros 16) (.address (.connected 3))

/-- A turn of the first connection. -/
def turn (answer : TurnAnswer) : SignallingStep := .pulse (.turn 1 answer) rfl fun _ => LiveMeetingRoom.sampleEnv

/-- The server accepts the handshake, and a conference is asked for: too early, in time, and too often. -/
def askedSteps : List SignallingStep :=
  let create (nowSeconds : UInt64) : SignallingStep :=
    .call (.signal_create_conference (ascii "ann") (ascii "Ann") ⟨nowSeconds, ascii "7", true⟩) rfl
  [create 1, turn { read := some (.got (ascii "HTTP/1.1 101 OK\r\n\r\n")) }, create 2, create 3,
    turn { write := some (.wrote 300) }]

theorem requests_read_asked :
    let history := trace (step common_to_string_double fun _ _ => .zeros 4) sampleStart.1 askedSteps
    let asked := history.filterMap (·.2.asked)
    (∀ k, texts (server_frames (wire k (sampleStart.2 ++ history.flatMap (·.2.client)))) <+:
        textsOn common_to_string_double k asked) ∧
      (history.flatMap (·.2.calls)).filterMap LiveMeetingRoom.accepted = asked.map (fun a => some a.2) :=
  requests_read common_to_string_double (fun _ _ => .zeros 4) (LiveMeetingRoom.new 0 0 0 0) (by decide +kernel) 80
    (.zeros 16) (.address (.connected 3)) askedSteps (by decide +kernel)

end Signalling

/-! ## Messages -/

/-- The texts of an item of a conversation. -/
def WsItem.payloads : WsItem → List Bytes
  | .message false f => [f.payload]
  | .fragmented false first inner last => [first.payload ++ inner.flatMap Inner.part ++ last.payload]
  | _ => []

theorem WsItem.texts_payloads (items : List WsItem) :
    items.flatMap WsItem.texts = (items.flatMap WsItem.payloads).map fun p => .text p p.length := by
  rw [List.map_flatMap]
  refine List.flatMap_congr fun i _ => ?_
  rcases i with ⟨ping, f⟩ | ⟨binary, f⟩ | ⟨binary, first, inner, last⟩
  · rfl
  · cases binary <;> rfl
  · cases binary <;> rfl

namespace Signalling

open WSClientState MgConnection

/-- The message a callback brings. -/
def textMessage : ClientOut → Option (Option JsonObject)
  | .text data len => some (JsonObject.read_from_string {} (data.take len))
  | _ => none

/-- What connection `id` reads in a step. -/
def chunkOn (id : Nat) : SignallingStep → Option Bytes
  | .call _ _ => none
  | .pulse t _ _ => chunk_read id t

/-- Nothing breaks the connection. -/
def Calm (s : Signalling) : SignallingStep → Prop
  | .call _ _ => True
  | .pulse t _ _ => Undisturbed s.client t

section
variable {stream_double : Float → Bytes} {random : Nat → Nat → Block 4}

theorem chunks_client (id : Nat) (steps : List SignallingStep) (s : Signalling) :
    (clientSteps stream_double random s steps).filterMap (chunk_read id) = steps.filterMap (chunkOn id) := by
  induction steps generalizing s with
  | nil => rfl
  | cons t steps ih =>
    have hstep : (s.clientStep stream_double t).filterMap (chunk_read id) = (chunkOn id t).toList := by
      cases t with
      | call c h =>
        simp only [clientStep]
        cases (s.room.step (c.withSent s.client.ready)).2.request <;> rfl
      | pulse t h env =>
        rw [clientStep, filterMap_cons_toList]
        exact List.append_nil _
    rw [clientSteps, List.filterMap_append, ih, hstep, filterMap_cons_toList]

theorem calm_client (steps : List SignallingStep) {s : Signalling}
    (h : Along (step stream_double random) Calm s steps) :
    Along (WSClientState.step random) Undisturbed s.client (clientSteps stream_double random s steps) := by
  induction steps generalizing s with
  | nil => trivial
  | cons t steps ih =>
    rw [clientSteps, along_append, ← step_client]
    refine ⟨?_, ih h.2⟩
    cases t with
    | call c hc =>
      simp only [clientStep]
      cases (s.room.step (c.withSent s.client.ready)).2.request with
      | none => trivial
      | some request => exact ⟨trivial, trivial⟩
    | pulse t ht env => exact ⟨h.1, trivial⟩

/-- The room has its client, and the callbacks of that are set. -/
structure Connected (s : Signalling) : Prop where
  room : s.room.m_websocket_client.isSome = true
  holds : s.client.Holds
  recv_set : s.client.m_recv_func = true
  ws_set : s.client.m_ws_func = true

/-- Only setting a callback changes whether it is set. -/
theorem does_set {w w' : WSClientState} {t : ClientStep} {outs : List ClientOut} (h : Does random w t w' outs)
    (ht : ∀ set, t ≠ .set_text_received_func set ∧ t ≠ .set_ws_event_func set) :
    w'.m_recv_func = w.m_recv_func ∧ w'.m_ws_func = w.m_ws_func := by
  cases h with
  | set_text_received_func set => exact absurd rfl (ht set).1
  | set_ws_event_func set => exact absurd rfl (ht set).2
  | _ => exact ⟨rfl, rfl⟩

theorem client_local (room : LiveMeetingRoom) {c : LiveMeetingRoom.Call} (hc : c.local = true) (sent : Bool) :
    (room.step (c.withSent sent)).1.m_websocket_client = room.m_websocket_client := by
  cases hs : LiveMeetingRoom.sets (c.withSent sent) with
  | false => exact congrArg LiveMeetingRoom.Setup.client (room.setup_step hs)
  | true =>
    cases c with
    | init | un_init => cases hc
    | set_event_callback_func func => rfl
    | _ => cases hs

theorem callback_client {env : MessageEnv} {o : ClientOut} {c : LiveMeetingRoom.Call} (h : callback env o = some c)
    (room : LiveMeetingRoom) : (room.step c).1.m_websocket_client = room.m_websocket_client := by
  have hs : LiveMeetingRoom.sets c = false := by
    cases o with
    | text | opened | closed =>
      cases h
      rfl
    | _ => cases h
  exact congrArg LiveMeetingRoom.Setup.client (room.setup_step hs)

/-- What the callbacks bring to a room that has its client. -/
theorem callbacks_run (env : Nat → MessageEnv) (outs : List ClientOut) (n : Nat) (room : LiveMeetingRoom)
    (h : room.m_websocket_client.isSome = true) :
    let calls := (outs.zipIdx n).filterMap fun o => callback (env o.2) o.1
    (trace LiveMeetingRoom.step room calls).filterMap LiveMeetingRoom.messageOf = outs.filterMap textMessage ∧
      (final LiveMeetingRoom.step room calls).m_websocket_client.isSome = true := by
  induction outs generalizing n room with
  | nil => exact ⟨rfl, h⟩
  | cons o outs ih =>
    dsimp only
    rw [List.zipIdx_cons, filterMap_cons_toList, filterMap_cons_toList]
    cases hc : callback (env n) o with
    | none =>
      have ho : textMessage o = none := by
        cases o with
        | text => cases hc
        | _ => rfl
      rw [ho]
      exact ih (n + 1) room h
    | some c =>
      obtain ⟨hmessages, hclient⟩ := ih (n + 1) (room.step c).1 (by rw [callback_client hc]; exact h)
      have ho : LiveMeetingRoom.messageOf (c, (room.step c).2) = textMessage o := by
        cases o with
        | text =>
          cases hc
          simp only [LiveMeetingRoom.step, h, if_true]
          rfl
        | opened | closed =>
          cases hc
          rfl
        | _ => cases hc
      rw [Option.toList_some, List.singleton_append, trace_cons, filterMap_cons_toList, ho]
      exact ⟨congrArg _ hmessages, hclient⟩

theorem polls_set {t : ClientStep} (ht : t.polls = true) (set : Bool) :
    t ≠ .set_text_received_func set ∧ t ≠ .set_ws_event_func set := by
  cases t with
  | timer | resolve | turn => exact ⟨nofun, nofun⟩
  | _ => cases ht

theorem Connected.step {s : Signalling} (h : s.Connected) (t : SignallingStep) :
    (s.step stream_double random t).1.Connected := by
  have hholds : (s.step stream_double random t).1.client.Holds := by
    rw [step_client]
    exact run_holds random h.holds _
  cases t with
  | call c hc =>
    have hset : (send stream_double random s.client (s.room.step (c.withSent s.client.ready)).2.request).1.m_recv_func =
          s.client.m_recv_func ∧
        (send stream_double random s.client (s.room.step (c.withSent s.client.ready)).2.request).1.m_ws_func =
          s.client.m_ws_func := by
      unfold send
      split
      · exact ⟨rfl, rfl⟩
      · exact does_set ((@send_text_does random) h.holds _) fun _ => ⟨nofun, nofun⟩
    exact ⟨(congrArg Option.isSome (client_local s.room hc _)).trans h.room, hholds, hset.1.trans h.recv_set,
      hset.2.trans h.ws_set⟩
  | pulse t ht env =>
    have hset := does_set ((@step_does random) h.holds t) (polls_set ht)
    exact ⟨(callbacks_run env _ 0 s.room h.room).2, hholds, hset.1.trans h.recv_set, hset.2.trans h.ws_set⟩

/-- The messages the room processes in a step are the texts the client receives. -/
theorem messages_step {s : Signalling} (h : s.Connected) (t : SignallingStep) :
    (s.step stream_double random t).2.calls.filterMap LiveMeetingRoom.messageOf =
      (s.step stream_double random t).2.client.filterMap textMessage := by
  cases t with
  | call c hc =>
    have hquiet : (send stream_double random s.client (s.room.step (c.withSent s.client.ready)).2.request).2.filterMap
        textMessage = [] := by
      unfold send
      split
      · rfl
      · rename_i request _
        generalize request_text stream_double request = msg
        have hdoes := (@send_text_does random) h.holds msg
        generalize (s.client.send_text random msg).1 = w', (s.client.send_text random msg).2 = outs at hdoes ⊢
        cases hdoes with
        | stays _ _ hout => rcases hout with rfl | rfl <;> rfl
        | send_text => rfl
    exact (List.filterMap_cons_none (LiveMeetingRoom.messageOf_local hc _ _)).trans hquiet.symm
  | pulse t ht env => exact (callbacks_run env _ 0 s.room h.room).1

theorem messages_heard (outs : List ClientOut) :
    outs.filterMap textMessage = (outs.filter is_callback).filterMap textMessage := by
  rw [List.filterMap_filter]
  refine List.filterMap_congr fun o _ => ?_
  cases o <;> rfl

theorem messages_run (steps : List SignallingStep) {s : Signalling} (h : s.Connected) :
    ((trace (step stream_double random) s steps).flatMap (·.2.calls)).filterMap LiveMeetingRoom.messageOf =
      ((trace (step stream_double random) s steps).flatMap (·.2.client)).filterMap textMessage := by
  induction steps generalizing s with
  | nil => rfl
  | cons t steps ih =>
    rw [trace_cons, List.flatMap_cons, List.flatMap_cons, List.filterMap_append, List.filterMap_append, messages_step h,
      ih (h.step t)]

end

/-- The client has connected and waits for the response. However what the server sends is cut into frames and reads, and
whatever the application asks in the meantime: if the server accepts the handshake, the room processes the texts of the
conversation as messages, each as a whole and in order, and no others. -/
theorem messages_processed (stream_double : Float → Bytes) (random : Nat → Nat → Block 4) (room : LiveMeetingRoom)
    (ip : Bytes) (port : UInt16) (nonce : Block 16) (answer : ConnectAnswer) (before : List SignallingStep)
    {s : Signalling} (hs : s = final (step stream_double random) (start random room ip port nonce answer).1 before)
    {c : Connection} (hconns : s.client.conns = [c]) (hconnected : c.is_resolving = false ∧ c.is_connecting = false)
    (hwait : Waiting c.toMgConnection []) {head rest : Bytes} (hhead : Accepts head) (items : List WsItem)
    (hsize : ∀ f ∈ items.flatMap WsItem.frames, f.payload.length ≤ 2 ^ 30) (hrest : ws_framing.next rest = none)
    {steps : List SignallingStep} (hcalm : Along (step stream_double random) Calm s steps)
    (hread : (steps.filterMap (chunkOn c.id)).flatten =
      head ++ ((items.flatMap WsItem.frames).flatMap WsFrame.bytes ++ rest)) :
    let calls := (trace (step stream_double random) s steps).flatMap (·.2.calls)
    calls.filterMap LiveMeetingRoom.messageOf =
        (items.flatMap WsItem.payloads).map (JsonObject.read_from_string {}) ∧
      calls = trace LiveMeetingRoom.step s.room (calls.map (·.1)) ∧
      (final (step stream_double random) s steps).room = final LiveMeetingRoom.step s.room (calls.map (·.1)) := by
  have hstart : (start random room ip port nonce answer).1.Connected :=
    ⟨rfl, run_holds random (init_holds random _ nonce answer) [.set_text_received_func true, .set_ws_event_func true],
      rfl, rfl⟩
  have hconn : s.Connected := by
    rw [hs]
    exact final_rule (step stream_double random) Connected (fun _ t h => h.step t) hstart before
  obtain ⟨hfinal, htrace⟩ := (@room_run stream_double random) steps s
  refine ⟨?_, htrace, hfinal⟩
  have hreading : Reading s.client c.id c.toMgConnection :=
    ⟨hconn.holds, hconn.recv_set, hconn.ws_set, c, hconns, rfl, hconnected.1, hconnected.2, .refl _⟩
  have hreceived := callbacks_received hreading hwait hhead items hsize hrest (calm_client steps hcalm)
    ((congrArg List.flatten (chunks_client c.id steps s)).trans hread)
  rw [messages_run steps hconn, ← (client_run steps s).2, messages_heard, hreceived, WsItem.texts_payloads,
    List.filterMap_cons_none rfl, List.filterMap_map, ← List.filterMap_eq_map]
  refine List.filterMap_congr fun p _ => ?_
  change some (JsonObject.read_from_string {} (p.take p.length)) = _
  rw [List.take_length]
  rfl

/-- The server's answer to a request for a conference. -/
def createdText : Bytes :=
  app_get_response common_to_string_double (ascii "200") (ascii "OK") TYPE_CONFERENCE_CREATE (ascii "7")
    [(ascii "conference_id", ascii "100"), (ascii "user_id", ascii "ann"), (ascii "user_uuid", ascii "a1")]

/-- A ping, and the answer in two fragments. -/
def createdItems : List WsItem :=
  [.control true ⟨none, [112]⟩, .fragmented false ⟨none, createdText.take 40⟩ [] ⟨none, createdText.drop 40⟩]

def createdWire : Bytes := ascii "HTTP/1.1 101 OK\r\n\r\n" ++ (createdItems.flatMap WsItem.frames).flatMap WsFrame.bytes

/-- The server's bytes come in two reads, and the application asks in between. -/
def createdSteps : List SignallingStep :=
  [turn { read := some (.got (createdWire.take 50)) },
    .call (.signal_create_conference (ascii "ann") (ascii "Ann") ⟨1, ascii "7", true⟩) rfl,
    turn { read := some (.got (createdWire.drop 50)) }]

theorem messages_processed_created :
    let calls := (trace (step common_to_string_double fun _ _ => .zeros 4) sampleStart.1 createdSteps).flatMap (·.2.calls)
    calls.filterMap LiveMeetingRoom.messageOf =
        (createdItems.flatMap WsItem.payloads).map (JsonObject.read_from_string {}) ∧
      calls = trace LiveMeetingRoom.step sampleStart.1.room (calls.map (·.1)) ∧
      (final (step common_to_string_double fun _ _ => .zeros 4) sampleStart.1 createdSteps).room =
        final LiveMeetingRoom.step sampleStart.1.room (calls.map (·.1)) :=
  messages_processed common_to_string_double (fun _ _ => .zeros 4) (LiveMeetingRoom.new 0 0 0 0) (ascii "127.0.0.1") 80
    (.zeros 16) (.address (.connected 3)) [] (s := sampleStart.1) rfl rfl ⟨rfl, rfl⟩ ⟨rfl, rfl, rfl, rfl, rfl⟩
    (show Accepts (ascii "HTTP/1.1 101 OK\r\n\r\n") from ⟨by decide, by decide, by decide⟩) createdItems
    (by decide +kernel) (show ws_framing.next [] = none by decide +kernel)
    ⟨⟨by decide, by decide, by decide, by decide, by decide +kernel⟩, trivial,
      ⟨by decide, by decide, by decide, by decide, by decide +kernel⟩, trivial⟩ (by decide +kernel)

end Signalling

end RtcClient
