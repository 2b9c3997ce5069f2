import RtcClient.Websocket.Client
/-!
# Runs of the client

Every step keeps what `Holds` says: there is at most one connection, `m_connection`
points to it, and `m_connected` says whether it is open (`one_connection`). So the
callbacks tell the application when it can send: there is no second opening without a
closing in between (`callbacks_alternate`).
-/

namespace RtcClient

open Lib MgConnection

/-! ## What a step of a connection can do -/

/-- The events of a connection and whether it is open before and after them. -/
inductive Opens : Bool → List WsEvent → Bool → Prop
  | quiet {b : Bool} {es : List WsEvent} (h : Quiet es) : Opens b es b
  | opening {es : List WsEvent} (h : Quiet es) : Opens false (.wsOpen :: es) true

theorem Opens.none (b : Bool) : Opens b [] b := .quiet (by simp [Quiet])

theorem Opens.error (b : Bool) (text : String) : Opens b [.error text] b := .quiet (by simp [Quiet])

theorem mg_ws_cb_opens (random : Nat → Block 4) (c : MgConnection) :
    Opens c.is_websocket (mg_ws_cb random c).2 (mg_ws_cb random c).1.is_websocket ∧
      (mg_ws_cb random c).1.is_client = c.is_client ∧
      (c.is_closing = true → (mg_ws_cb random c).1.is_closing = true) := by
  unfold mg_ws_cb
  simp only
  split_ifs with hwait
  · obtain ⟨hkeeps, hquiet⟩ := (@ws_loop_keeps random) { c with is_closing := true }
    rw [hkeeps.websocket]
    exact ⟨.quiet hquiet, hkeeps.client, fun _ => hkeeps.closing rfl⟩
  · obtain ⟨hkeeps, hquiet⟩ := (@ws_loop_keeps random)
      { c with is_closing := true, recv := mg_iobuf_del c.recv 0 (mg_http_get_request_len c.recv).toNat }
    rw [hkeeps.websocket]
    exact ⟨.quiet hquiet, hkeeps.client, fun _ => hkeeps.closing rfl⟩
  · obtain ⟨hkeeps, hquiet⟩ := (@ws_loop_keeps random)
      { c with is_websocket := true, recv := mg_iobuf_del c.recv 0 (mg_http_get_request_len c.recv).toNat }
    have hc : c.is_websocket = false := by
      rw [Bool.and_eq_true, Bool.not_eq_true'] at hwait
      exact hwait.1
    rw [hkeeps.websocket, hc]
    exact ⟨.opening hquiet, hkeeps.client, hkeeps.closing⟩
  · exact ⟨.none _, rfl, id⟩
  · obtain ⟨hkeeps, hquiet⟩ := (@ws_loop_keeps random) c
    rw [hkeeps.websocket]
    exact ⟨.quiet hquiet, hkeeps.client, hkeeps.closing⟩

/-- Errors, which are only logged. -/
def Silent (es : List WsEvent) : Prop := ∀ e ∈ es, ∃ text, e = .error text

namespace Connection

/-- A connection of the client: it has a socket unless it waits for the resolver or is closing, and an open one has
been connected. -/
structure Sound (c : Connection) : Prop where
  client : c.is_client = true
  socket : c.is_resolving = false → c.is_closing = false → c.fd.isSocket
  opened : c.is_websocket = true → c.is_resolving = false ∧ c.is_connecting = false ∧ c.fd.isSocket

/-- What a connection does that is not open yet. -/
theorem mg_connect_resolved_sound {c : Connection} (h : c.is_client = true) (hnew : c.is_websocket = false)
    (a : SocketAnswer) :
    (c.mg_connect_resolved a).1.Sound ∧ (c.mg_connect_resolved a).1.id = c.id ∧
      (c.mg_connect_resolved a).1.is_websocket = false ∧ Silent (c.mg_connect_resolved a).2 := by
  have hopened : ∀ P : Prop, c.is_websocket = true → P := fun P hc => by rw [hnew] at hc; cases hc
  cases a with
  | no_socket errno =>
    exact ⟨⟨h, fun _ hc => (by cases hc), hopened _⟩, rfl, hnew, by simp [mg_connect_resolved, mg_error, Silent]⟩
  | connected fd => exact ⟨⟨h, fun _ _ => rfl, hopened _⟩, rfl, hnew, by simp [mg_connect_resolved, Silent]⟩
  | pending fd => exact ⟨⟨h, fun _ _ => rfl, hopened _⟩, rfl, hnew, by simp [mg_connect_resolved, Silent]⟩
  | refused fd errno =>
    exact ⟨⟨h, fun _ _ => rfl, hopened _⟩, rfl, hnew, by simp [mg_connect_resolved, mg_error, Silent]⟩

theorem Sound.not_open_of_resolving {c : Connection} (h : c.Sound) (hresolving : c.is_resolving = true) :
    c.is_websocket = false := by
  cases hopen : c.is_websocket with
  | false => rfl
  | true =>
    rw [(h.opened hopen).1] at hresolving
    cases hresolving

theorem mg_error_sound {c : Connection} (h : c.Sound) (text : String) : (c.mg_error text).1.Sound :=
  ⟨h.client, fun _ hc => (by cases hc), h.opened⟩

theorem mg_resolve_sound {c : Connection} (h : c.is_client = true) (hnew : c.is_websocket = false)
    {answer : ConnectAnswer} (hoom : answer ≠ .oom) :
    (c.mg_resolve answer).1.Sound ∧ (c.mg_resolve answer).1.id = c.id ∧
      (c.mg_resolve answer).1.is_websocket = false ∧ Silent (c.mg_resolve answer).2 := by
  have hopened : ∀ P : Prop, c.is_websocket = true → P := fun P hc => by rw [hnew] at hc; cases hc
  cases answer with
  | oom => exact absurd rfl hoom
  | address socket => exact mg_connect_resolved_sound h hnew socket
  | request => exact ⟨⟨h, fun hr => (by cases hr), hopened _⟩, rfl, hnew, by simp [mg_resolve, Silent]⟩
  | failed text => exact ⟨⟨h, fun _ hc => (by cases hc), hopened _⟩, rfl, hnew, by simp [mg_resolve, mg_error, Silent]⟩

theorem read_conn_sound {random : Nat → Block 4} {c : Connection} (h : c.Sound) (hr : c.is_resolving = false)
    (hc : c.is_connecting = false) (hopen : c.is_closing = false) (answer : ReadAnswer) :
    (c.read_conn random answer).1.Sound ∧ (c.read_conn random answer).1.id = c.id ∧
      Opens c.is_websocket (c.read_conn random answer).2 (c.read_conn random answer).1.is_websocket := by
  have hfd := h.socket hr hopen
  unfold read_conn
  split_ifs
  · exact ⟨mg_error_sound h _, rfl, .error _ _⟩
  · cases answer with
    | oom => exact ⟨mg_error_sound h _, rfl, .error _ _⟩
    | got chunk =>
      obtain ⟨hopens, hclient, -⟩ := mg_ws_cb_opens random { c.toMgConnection with recv := c.recv ++ chunk }
      exact ⟨⟨hclient.trans h.client, fun _ _ => hfd, fun _ => ⟨hr, hc, hfd⟩⟩, rfl, hopens⟩
    | would_block => exact ⟨h, rfl, .none _⟩
    | failed => exact ⟨⟨h.client, fun _ hc => (by cases hc), h.opened⟩, rfl, .none _⟩

theorem write_conn_sound {c : Connection} (h : c.Sound) (answer : WriteAnswer) :
    (c.write_conn answer).1.Sound ∧ (c.write_conn answer).1.id = c.id ∧
      (c.write_conn answer).1.is_websocket = c.is_websocket := by
  have hclosing : Sound { c with is_closing := true } := ⟨h.client, fun _ hc => (by cases hc), h.opened⟩
  cases answer with
  | wrote n =>
    unfold write_conn
    simp only
    split_ifs
    · exact ⟨hclosing, rfl, rfl⟩
    · exact ⟨⟨h.client, h.socket, h.opened⟩, rfl, rfl⟩
  | would_block => exact ⟨h, rfl, rfl⟩
  | failed => exact ⟨hclosing, rfl, rfl⟩

theorem if_readable_sound {random : Nat → Block 4} {c : Connection} (h : c.Sound) (hr : c.is_resolving = false)
    (hc : c.is_connecting = false) (hopen : c.is_closing = false) (answer : Option ReadAnswer) :
    (c.if_readable random answer).1.Sound ∧ (c.if_readable random answer).1.id = c.id ∧
      Opens c.is_websocket (c.if_readable random answer).2 (c.if_readable random answer).1.is_websocket := by
  cases answer with
  | none => exact ⟨h, rfl, .none _⟩
  | some answer => exact read_conn_sound h hr hc hopen answer

theorem if_writable_sound {c : Connection} (h : c.Sound) (answer : Option WriteAnswer) :
    (c.if_writable answer).1.Sound ∧ (c.if_writable answer).1.id = c.id ∧
      (c.if_writable answer).1.is_websocket = c.is_websocket := by
  cases answer with
  | none => exact ⟨h, rfl, rfl⟩
  | some answer => exact write_conn_sound h answer

theorem turn_sound {random : Nat → Block 4} {c : Connection} (h : c.Sound) (answer : TurnAnswer) :
    (c.turn random answer).1.Sound ∧ (c.turn random answer).1.id = c.id ∧
      Opens c.is_websocket (c.turn random answer).2.1 (c.turn random answer).1.is_websocket := by
  unfold turn
  split_ifs with hidle hconnecting
  · exact ⟨h, rfl, .none _⟩
  · cases answer.connect with
    | none => exact ⟨h, rfl, .none _⟩
    | some error =>
      have hwait : c.is_websocket = true → False := fun hopen => by
        rw [(h.opened hopen).2.1] at hconnecting
        cases hconnecting
      cases error with
      | none => exact ⟨⟨h.client, h.socket, fun hopen => absurd hopen hwait⟩, rfl, .none _⟩
      | some rem => exact ⟨⟨h.client, fun _ hc => (by cases hc), fun hopen => absurd hopen hwait⟩, rfl, .error _ _⟩
  · obtain ⟨hresolved, hopen⟩ : c.is_resolving = false ∧ c.is_closing = false := by simpa using hidle
    have hconnected : c.is_connecting = false := by simpa using hconnecting
    obtain ⟨hsound, hid, hopens⟩ := (@if_readable_sound random) h hresolved hconnected hopen answer.read
    obtain ⟨hsound', hid', hsame⟩ := if_writable_sound hsound answer.write
    refine ⟨hsound', hid'.trans hid, ?_⟩
    rw [hsame]
    exact hopens

end Connection

/-! ## What a step of the client can do -/

namespace WSClientState

/-- No connection, or one, which `m_connection` points to; `m_connected` says whether it is open. -/
inductive Holds (w : WSClientState) : Prop
  | idle (hconns : w.conns = []) (hptr : w.m_connection = none) (hconnected : w.m_connected = false)
  | one (c : Connection) (hconns : w.conns = [c]) (hptr : w.m_connection = some c.id)
      (hconnected : w.m_connected = c.is_websocket) (hsound : c.Sound)

/-- The connection is gone. -/
def dropped (w : WSClientState) : WSClientState := { w with conns := [], m_connection := none, m_connected := false }

def closed_out (w : WSClientState) : List ClientOut := if w.m_ws_func then [.closed] else []

/-- What the steps of a client come to. -/
inductive Does (random : Nat → Nat → Block 4) (w : WSClientState) : ClientStep → WSClientState → List ClientOut → Prop
  | stays {s : ClientStep} {outs : List ClientOut} (hs : ∀ nonce answer, s ≠ .timer nonce answer)
      (hturn : ∀ c ∈ w.conns, ∀ answer, s ≠ .turn c.id answer) (h : outs = [] ∨ outs = [.returned false]) : Does random w s w outs
  | set_text_received_func (set : Bool) :
      Does random w (.set_text_received_func set) { w with m_recv_func := set } []
  | set_ws_event_func (set : Bool) : Does random w (.set_ws_event_func set) { w with m_ws_func := set } []
  | no_connect {nonce : Block 16} {answer : ConnectAnswer} {outs : List ClientOut} (hconnected : w.m_connected = false)
      (h : outs = [] ∨ outs = w.closed_out) : Does random w (.timer nonce answer) w.dropped outs
  | connect {nonce : Block 16} {answer : ConnectAnswer} {outs : List ClientOut} (hconnected : w.m_connected = false)
      (hanswer : answer ≠ .oom) (h : w.conns = [] ∧ outs = [] ∨ outs = w.closed_out) :
      Does random w (.timer nonce answer)
        { w.dropped with
          nextid := w.nextid + 1, conns := [(w.new_connection nonce answer).1]
          m_connection := some (w.new_connection nonce answer).1.id }
        (outs ++ answer.sockets)
  | ping {nonce : Block 16} {answer : ConnectAnswer} {c : Connection} (hconns : w.conns = [c])
      (hconnected : w.m_connected = true) :
      Does random w (.timer nonce answer) { w with conns := [c.queue (random c.id) (ascii "ping") WEBSOCKET_OP_PING] }
        [.queued c.id WEBSOCKET_OP_PING (ascii "ping")]
  | send_text {msg : Bytes} {c : Connection} (hconns : w.conns = [c]) (hconnected : w.m_connected = true) :
      Does random w (.send_text msg) { w with conns := [c.queue (random c.id) msg WEBSOCKET_OP_TEXT] }
        [.queued c.id WEBSOCKET_OP_TEXT msg, .returned true]
  | resolved {c : Connection} (socket : SocketAnswer) (hconns : w.conns = [c]) (hresolving : c.is_resolving = true) :
      Does random w (.resolve c.id (.resolved socket)) { w with conns := [(c.mg_connect_resolved socket).1] }
        (socket.fd.map ClientOut.socket).toList
  | not_resolved {c : Connection} (text : String) (hconns : w.conns = [c]) (hresolving : c.is_resolving = true) :
      Does random w (.resolve c.id (.failed text)) { w with conns := [(c.mg_error text).1] } []
  | turn {c : Connection} {answer : TurnAnswer} (hconns : w.conns = [c])
      (hopen : (c.turn (random c.id) answer).1.is_closing = false) :
      Does random w (.turn c.id answer)
        { w with
          conns := [(c.turn (random c.id) answer).1]
          m_connected := (c.turn (random c.id) answer).1.is_websocket }
        ((w.handle (c.turn (random c.id) answer).2.1).2 ++ wrote_out c.id (c.turn (random c.id) answer).2.2)
  | close {c : Connection} {answer : TurnAnswer} (hconns : w.conns = [c])
      (hclosing : (c.turn (random c.id) answer).1.is_closing = true) :
      Does random w (.turn c.id answer) w.dropped
        ((w.handle (c.turn (random c.id) answer).2.1).2 ++ wrote_out c.id (c.turn (random c.id) answer).2.2 ++
          ((c.turn (random c.id) answer).1.fd.closed.map ClientOut.closesocket).toList ++ w.closed_out)

section
variable {w : WSClientState} {c : Connection}

theorem conn_one (h : w.conns = [c]) (id : Nat) : w.conn id = if c.id = id then some c else none := by
  rw [conn, h, List.find?_cons]
  by_cases hid : c.id = id <;> simp [hid]

theorem put_one (h : w.conns = [c]) {d : Connection} (hid : d.id = c.id) : w.put d = { w with conns := [d] } := by
  simp [put, h, hid]

theorem mg_close_conn_one (h : w.conns = [c]) : w.mg_close_conn c.id = (w.dropped, w.closed_out) := by
  simp [mg_close_conn, h, handle, on_event_handle, dropped, closed_out]

end

/-- The handler only changes `m_connected`, and for the callbacks the connections do not matter. -/
theorem handle_quiet {es : List WsEvent} (h : Quiet es) (w : WSClientState) : (w.handle es).1 = w := by
  induction es with
  | nil => rfl
  | cons e es ih =>
    have he := h e List.mem_cons_self
    have hstep : (w.on_event_handle e).1 = w := by
      cases e with
      | wsOpen => exact absurd rfl he.1
      | wsMsg flags data len => rfl
      | wsCtl flags data => rfl
      | error text => rfl
      | close => exact absurd rfl he.2
    rw [handle, hstep]
    exact ih fun e' he' => h e' (List.mem_cons_of_mem _ he')

theorem handle_opens {w : WSClientState} {b : Bool} {es : List WsEvent} (h : Opens w.m_connected es b) :
    (handle w es).1 = { w with m_connected := b } := by
  generalize hbefore : w.m_connected = before at h
  cases h with
  | quiet h => rw [handle_quiet h, ← hbefore]
  | opening h => exact handle_quiet h { w with m_connected := true }

theorem handle_silent {es : List WsEvent} (h : Silent es) (w : WSClientState) : w.handle es = (w, []) := by
  induction es with
  | nil => rfl
  | cons e es ih =>
    obtain ⟨text, rfl⟩ := h e List.mem_cons_self
    have hrest := ih fun e' he' => h e' (List.mem_cons_of_mem _ he')
    rw [handle, on_event_handle, hrest]
    rfl

theorem handle_outs (es : List WsEvent) :
    ∀ {w v : WSClientState}, w.m_ws_func = v.m_ws_func → w.m_recv_func = v.m_recv_func →
      (w.handle es).2 = (v.handle es).2 := by
  induction es with
  | nil => intro w v _ _; rfl
  | cons e es ih =>
    intro w v hws hrecv
    have hout : (w.on_event_handle e).2 = (v.on_event_handle e).2 := by
      cases e <;> simp only [on_event_handle, hws, hrecv]
    have hsets : ∀ u : WSClientState, (u.on_event_handle e).1.m_ws_func = u.m_ws_func ∧
        (u.on_event_handle e).1.m_recv_func = u.m_recv_func := by
      intro u
      cases e <;> exact ⟨rfl, rfl⟩
    rw [handle, handle, hout, ih ((hsets w).1.trans (hws.trans (hsets v).1.symm))
      ((hsets w).2.trans (hrecv.trans (hsets v).2.symm))]

/-- Making a connection, when there is none. -/
theorem mg_ws_connect_does {random : Nat → Nat → Block 4} {w : WSClientState} (hconnected : w.m_connected = false)
    {outs : List ClientOut} (h : w.conns = [] ∧ w.m_connection = none ∧ outs = [] ∨ outs = w.closed_out)
    (nonce : Block 16) (answer : ConnectAnswer) :
    Does random w (.timer nonce answer) (w.dropped.mg_ws_connect nonce answer).1
      (outs ++ (w.dropped.mg_ws_connect nonce answer).2) := by
  have houts : outs = [] ∨ outs = w.closed_out := h.imp_left fun hi => hi.2.2
  unfold mg_ws_connect
  split_ifs with hnone
  · rw [List.append_nil]
    exact .no_connect hconnected houts
  · obtain ⟨hurl, hoom⟩ := not_or.1 hnone
    obtain ⟨-, -, -, hsilent⟩ :=
      Connection.mg_resolve_sound (c := { id := w.nextid + 1 }) rfl rfl hoom
    have hnew : w.dropped.new_connection nonce answer = w.new_connection nonce answer := rfl
    simp only [hnew, (@handle_silent ((w.new_connection nonce answer).2)) hsilent, List.append_nil]
    exact .connect hconnected hoom (h.imp_left fun hi => ⟨hi.1, hi.2.2⟩)

theorem on_timer_does {random : Nat → Nat → Block 4} {w : WSClientState} (h : w.Holds) (nonce : Block 16)
    (answer : ConnectAnswer) :
    Does random w (.timer nonce answer) (w.on_timer random nonce answer).1 (w.on_timer random nonce answer).2 := by
  rcases h with ⟨hconns, hptr, hconnected⟩ | ⟨c, hconns, hptr, hconnected, -⟩
  · have hdropped : w.dropped = w := by rw [dropped, ← hconns, ← hptr, ← hconnected]
    have hdoes := (@mg_ws_connect_does random w) hconnected (.inl ⟨hconns, hptr, rfl⟩) nonce answer
    rw [hdropped] at hdoes
    rw [on_timer, if_neg (by simp [hconnected]), hptr]
    exact hdoes
  · cases hopen : w.m_connected with
    | true =>
      have hput := put_one hconns (d := c.queue (random c.id) (ascii "ping") WEBSOCKET_OP_PING) rfl
      rw [on_timer, if_pos hopen, ws_send, hptr, Option.bind_some, conn_one hconns, if_pos rfl]
      simp only [hput]
      exact .ping hconns hopen
    | false =>
      rw [on_timer, if_neg (by simp [hopen]), hptr]
      simp only [mg_close_conn_one hconns]
      exact mg_ws_connect_does hopen (.inr rfl) nonce answer

theorem send_text_does {random : Nat → Nat → Block 4} {w : WSClientState} (h : w.Holds) (msg : Bytes) :
    Does random w (.send_text msg) (w.send_text random msg).1 (w.send_text random msg).2 := by
  rcases h with ⟨hconns, hptr, hconnected⟩ | ⟨c, hconns, hptr, -, -⟩
  · rw [send_text, hptr, if_neg (by simp)]
    exact .stays (by simp) (by simp) (.inr rfl)
  · cases hopen : w.m_connected with
    | true =>
      have hput := put_one hconns (d := c.queue (random c.id) msg WEBSOCKET_OP_TEXT) rfl
      rw [send_text, hptr, if_pos (by simp [hopen]), ws_send, hptr, Option.bind_some, conn_one hconns, if_pos rfl]
      simp only [hput]
      exact .send_text hconns hopen
    | false =>
      rw [send_text, if_neg (by simp [hopen])]
      exact .stays (by simp) (by simp) (.inr rfl)

theorem resolve_does {random : Nat → Nat → Block 4} {w : WSClientState} (h : w.Holds) (id : Nat)
    (answer : ResolverAnswer) : Does random w (.resolve id answer) (w.resolve id answer).1 (w.resolve id answer).2 := by
  rcases h with ⟨hconns, -, -⟩ | ⟨c, hconns, hptr, hconnected, hsound⟩
  · have hnone : w.conn id = none := by rw [conn, hconns, List.find?_nil]
    rw [resolve, hnone]
    exact .stays (by simp) (by simp) (.inl rfl)
  · rw [resolve, conn_one hconns]
    by_cases hid : c.id = id
    · subst hid
      rw [if_pos rfl]
      simp only
      split_ifs with hwait
      · exact .stays (by simp) (by simp) (.inl rfl)
      · have hresolving : c.is_resolving = true := by simpa using hwait
        have hnew := hsound.not_open_of_resolving hresolving
        cases answer with
        | resolved socket =>
          obtain ⟨-, hsame, -, hsilent⟩ := Connection.mg_connect_resolved_sound hsound.client hnew socket
          simp only [handle_silent hsilent, put_one hconns hsame, List.append_nil]
          exact .resolved socket hconns hresolving
        | failed text =>
          have hsilent : Silent (c.mg_error text).2 := by simp [Connection.mg_error, Silent]
          simp only [handle_silent hsilent, put_one hconns (d := (c.mg_error text).1) rfl]
          exact .not_resolved text hconns hresolving
    · rw [if_neg hid]
      exact .stays (by simp) (by simp) (.inl rfl)

theorem turn_does {random : Nat → Nat → Block 4} {w : WSClientState} (h : w.Holds) (id : Nat) (answer : TurnAnswer) :
    Does random w (.turn id answer) (w.turn random id answer).1 (w.turn random id answer).2 := by
  rcases h with ⟨hconns, -, -⟩ | ⟨c, hconns, hptr, hconnected, hsound⟩
  · have hnone : w.conn id = none := by rw [conn, hconns, List.find?_nil]
    rw [turn, hnone]
    exact .stays (by simp) (by simp [hconns]) (.inl rfl)
  · rw [turn, conn_one hconns]
    by_cases hid : c.id = id
    · subst hid
      rw [if_pos rfl]
      obtain ⟨-, hsame, hopens⟩ := (@Connection.turn_sound (random c.id)) hsound answer
      have hturn := (@Does.turn random w _ answer) hconns
      have hclose := (@Does.close random w _ answer) hconns
      rw [← hconnected] at hopens
      simp only
      generalize c.turn (random c.id) answer = r at hsame hopens hturn hclose ⊢
      have hhandle := handle_opens (w := { w with conns := [r.1] }) hopens
      have houts := handle_outs r.2.1 (w := { w with conns := [r.1] }) (v := w) rfl rfl
      simp only [put_one hconns hsame, hhandle, houts]
      cases hclosing : r.1.is_closing with
      | true =>
        have hgone := mg_close_conn_one (c := r.1)
          (w := { w with conns := [r.1], m_connected := r.1.is_websocket }) rfl
        rw [if_pos rfl]
        simp only [close_conn, hgone, ← List.append_assoc]
        exact hclose hclosing
      | false => exact hturn hclosing
    · rw [if_neg hid]
      exact .stays (by simp) (by simpa [hconns] using Ne.symm hid) (.inl rfl)

/-- What the steps of the model are. -/
theorem step_does {random : Nat → Nat → Block 4} {w : WSClientState} (h : w.Holds) (s : ClientStep) :
    Does random w s (w.step random s).1 (w.step random s).2 := by
  cases s with
  | timer nonce answer => exact on_timer_does h nonce answer
  | resolve id answer => exact resolve_does h id answer
  | turn id answer => exact turn_does h id answer
  | send_text msg => exact send_text_does h msg
  | set_text_received_func set => exact .set_text_received_func set
  | set_ws_event_func set => exact .set_ws_event_func set

/-! ## One connection -/

theorem Holds.conn {w : WSClientState} (h : w.Holds) {c : Connection} (hconns : w.conns = [c]) :
    w.m_connection = some c.id ∧ w.m_connected = c.is_websocket ∧ c.Sound := by
  rcases h with ⟨hnone, -, -⟩ | ⟨d, hone, hptr, hconnected, hsound⟩
  · rw [hconns] at hnone
    cases hnone
  · obtain rfl : c = d := List.head_eq_of_cons_eq (hconns.symm.trans hone)
    exact ⟨hptr, hconnected, hsound⟩

theorem new_connection_sound (w : WSClientState) (nonce : Block 16) {answer : ConnectAnswer} (h : answer ≠ .oom) :
    (w.new_connection nonce answer).1.Sound ∧ (w.new_connection nonce answer).1.is_websocket = false := by
  obtain ⟨hsound, -, hnew, -⟩ := Connection.mg_resolve_sound (c := { id := w.nextid + 1 }) rfl rfl h
  exact ⟨⟨hsound.client, hsound.socket, hsound.opened⟩, hnew⟩

theorem queue_sound {random : Nat → Block 4} {c : Connection} (h : c.Sound) (payload : Bytes) (op : UInt8) :
    (c.queue random payload op).Sound ∧ (c.queue random payload op).is_websocket = c.is_websocket := by
  rw [Connection.queue, mg_ws_send_frame]
  exact ⟨⟨h.client, h.socket, h.opened⟩, rfl⟩

theorem does_holds {random : Nat → Nat → Block 4} {w w' : WSClientState} {s : ClientStep} {outs : List ClientOut}
    (h : w.Holds) (hdoes : Does random w s w' outs) : w'.Holds := by
  cases hdoes with
  | stays _ _ _ => exact h
  | set_text_received_func set =>
    rcases h with ⟨hconns, hptr, hconnected⟩ | ⟨c, hconns, hptr, hconnected, hsound⟩
    · exact .idle hconns hptr hconnected
    · exact .one c hconns hptr hconnected hsound
  | set_ws_event_func set =>
    rcases h with ⟨hconns, hptr, hconnected⟩ | ⟨c, hconns, hptr, hconnected, hsound⟩
    · exact .idle hconns hptr hconnected
    · exact .one c hconns hptr hconnected hsound
  | no_connect _ _ => exact .idle rfl rfl rfl
  | connect _ hanswer _ =>
    obtain ⟨hsound, hnew⟩ := new_connection_sound w _ hanswer
    exact .one _ rfl rfl hnew.symm hsound
  | ping hconns _ =>
    obtain ⟨hptr, hconnected, hsound⟩ := h.conn hconns
    obtain ⟨hsound', hsame⟩ := queue_sound hsound _ _
    exact .one _ rfl hptr (hconnected.trans hsame.symm) hsound'
  | send_text hconns _ =>
    obtain ⟨hptr, hconnected, hsound⟩ := h.conn hconns
    obtain ⟨hsound', hsame⟩ := queue_sound hsound _ _
    exact .one _ rfl hptr (hconnected.trans hsame.symm) hsound'
  | @resolved c socket hconns hresolving =>
    obtain ⟨hptr, hconnected, hsound⟩ := h.conn hconns
    have hnew := hsound.not_open_of_resolving hresolving
    obtain ⟨hsound', hid, hnew', -⟩ := Connection.mg_connect_resolved_sound hsound.client hnew socket
    exact .one _ rfl (by rw [hid]; exact hptr) (hconnected.trans (hnew.trans hnew'.symm)) hsound'
  | @not_resolved c text hconns hresolving =>
    obtain ⟨hptr, hconnected, hsound⟩ := h.conn hconns
    exact .one _ rfl hptr hconnected (Connection.mg_error_sound hsound text)
  | @turn c answer hconns _ =>
    obtain ⟨hptr, -, hsound⟩ := h.conn hconns
    obtain ⟨hsound', hid, -⟩ := (@Connection.turn_sound (random c.id)) hsound answer
    exact .one _ rfl (by rw [hid]; exact hptr) rfl hsound'
  | close _ _ => exact .idle rfl rfl rfl

theorem init_holds (random : Nat → Nat → Block 4) (serverURL : Bytes) (nonce : Block 16) (answer : ConnectAnswer) :
    (init random serverURL nonce answer).1.Holds :=
  have hidle : Holds { m_server_url := serverURL } := .idle rfl rfl rfl
  does_holds hidle ((@on_timer_does random) hidle nonce answer)

theorem run_holds (random : Nat → Nat → Block 4) {w : WSClientState} (h : w.Holds) (steps : List ClientStep) :
    (final (step random) w steps).Holds :=
  final_rule (step random) Holds (fun _ s hw => does_holds hw (step_does hw s)) h steps

/-- Whatever the network does and whenever the client is used: there is at most one connection, `m_connection` is NULL
or points to it, and `m_connected` says that it is open, in which case it has a socket. -/
theorem one_connection (random : Nat → Nat → Block 4) (serverURL : Bytes) (nonce : Block 16) (answer : ConnectAnswer)
    (steps : List ClientStep) :
    let w := final (step random) (init random serverURL nonce answer).1 steps
    w.conns.length ≤ 1 ∧ (∀ c ∈ w.conns, w.m_connection = some c.id) ∧
      (∀ id, w.m_connection = some id → ∃ c ∈ w.conns, c.id = id) ∧
      (w.m_connected = true ↔ ∃ c ∈ w.conns, c.is_websocket = true) ∧
      ∀ c ∈ w.conns, c.is_websocket = true → c.is_resolving = false ∧ c.is_connecting = false ∧ c.fd.isSocket := by
  intro w
  have h : w.Holds := run_holds random (init_holds random serverURL nonce answer) steps
  clear_value w
  rcases h with ⟨hconns, hptr, hconnected⟩ | ⟨c, hconns, hptr, hconnected, hsound⟩
  · rw [hconns, hptr, hconnected]
    simp
  · rw [hconns, hptr, hconnected]
    refine ⟨by simp, by simp, by simp, by simp, ?_⟩
    rw [List.forall_mem_singleton]
    exact hsound.opened

/-! ## The callbacks -/

/-- What the callbacks of the events have told, if the connection was as `before`: nothing makes sense behind a second
opening. -/
def told (before : Bool) : List ClientOut → Option Bool
  | [] => some before
  | .opened :: outs => if before then none else told true outs
  | .closed :: outs => told false outs
  | _ :: outs => told before outs

theorem told_append (outs outs' : List ClientOut) :
    ∀ b, told b (outs ++ outs') = (told b outs).bind (told · outs') := by
  induction outs with
  | nil => intro b; rfl
  | cons o outs ih =>
    intro b
    cases o with
    | opened =>
      rw [List.cons_append, told, told, ih]
      cases b <;> rfl
    | closed => rw [List.cons_append, told, told, ih]
    | _ => exact ih b

/-- What is not a callback of an event. -/
theorem told_other {outs : List ClientOut} (h : ∀ o ∈ outs, o ≠ .opened ∧ o ≠ .closed) (b : Bool) :
    told b outs = some b := by
  induction outs with
  | nil => rfl
  | cons o outs ih =>
    rw [List.forall_mem_cons] at h
    have hrest := ih h.2
    cases o with
    | opened => exact absurd rfl h.1.1
    | closed => exact absurd rfl h.1.2
    | _ => exact hrest

theorem told_option {α : Type} {f : α → ClientOut} (o : Option α) (hf : ∀ x, f x ≠ .opened ∧ f x ≠ .closed) (b : Bool) :
    told b (o.map f).toList = some b := by
  refine told_other ?_ b
  cases o with
  | none => simp
  | some x => simpa using hf x

theorem told_sockets (answer : ConnectAnswer) (b : Bool) : told b answer.sockets = some b := by
  cases answer with
  | address socket => exact told_option socket.fd (by simp) b
  | _ => rfl

theorem told_wrote (id : Nat) (data : Bytes) (b : Bool) : told b (wrote_out id data) = some b := by
  unfold wrote_out
  split_ifs <;> rfl

theorem told_quiet {es : List WsEvent} (h : Quiet es) (w : WSClientState) (b : Bool) :
    told b (w.handle es).2 = some b := by
  induction es with
  | nil => rfl
  | cons e es ih =>
    have he := h e List.mem_cons_self
    have hrest := ih fun e' he' => h e' (List.mem_cons_of_mem _ he')
    cases e with
    | wsOpen => exact absurd rfl he.1
    | wsMsg flags data len =>
      rw [handle, on_event_handle, told_append]
      split_ifs <;> exact hrest
    | wsCtl flags data => exact hrest
    | error text => exact hrest
    | close => exact absurd rfl he.2

theorem told_opens {w : WSClientState} {es : List WsEvent} {b : Bool} (hset : w.m_ws_func = true)
    (h : Opens w.m_connected es b) : told w.m_connected (w.handle es).2 = some b := by
  generalize hbefore : w.m_connected = before at h
  cases h with
  | quiet h => exact told_quiet h w _
  | opening h =>
    rw [handle, on_event_handle, if_pos hset]
    exact told_quiet h _ true

theorem does_told {random : Nat → Nat → Block 4} {w w' : WSClientState} {s : ClientStep} {outs : List ClientOut}
    (h : w.Holds) (hset : w.m_ws_func = true) (hs : s ≠ .set_ws_event_func false) (hdoes : Does random w s w' outs) :
    told w.m_connected outs = some w'.m_connected ∧ w'.m_ws_func = true := by
  have hclosed : w.closed_out = [.closed] := if_pos hset
  cases hdoes with
  | stays _ _ hout => rcases hout with rfl | rfl <;> exact ⟨rfl, hset⟩
  | set_text_received_func set => exact ⟨rfl, hset⟩
  | set_ws_event_func set =>
    cases set with
    | true => exact ⟨rfl, rfl⟩
    | false => exact absurd rfl hs
  | no_connect hconnected hout =>
    rw [hconnected]
    rcases hout with rfl | rfl
    · exact ⟨rfl, hset⟩
    · rw [hclosed]
      exact ⟨rfl, hset⟩
  | @connect nonce answer before hconnected hanswer hout =>
    have hbefore : told false before = some false := by
      rcases hout with ⟨-, rfl⟩ | rfl
      · rfl
      · rw [hclosed]
        rfl
    rw [hconnected, told_append, hbefore]
    exact ⟨told_sockets answer false, hset⟩
  | ping hconns _ => exact ⟨rfl, hset⟩
  | send_text hconns _ => exact ⟨rfl, hset⟩
  | @resolved c socket hconns hresolving => exact ⟨told_option socket.fd (by simp) _, hset⟩
  | @not_resolved c text hconns hresolving => exact ⟨rfl, hset⟩
  | @turn c answer hconns _ =>
    obtain ⟨-, hconnected, hsound⟩ := h.conn hconns
    obtain ⟨-, -, hopens⟩ := (@Connection.turn_sound (random c.id)) hsound answer
    rw [← hconnected] at hopens
    rw [told_append, told_opens hset hopens]
    exact ⟨told_wrote _ _ _, hset⟩
  | @close c answer hconns _ =>
    obtain ⟨-, hconnected, hsound⟩ := h.conn hconns
    obtain ⟨-, -, hopens⟩ := (@Connection.turn_sound (random c.id)) hsound answer
    rw [← hconnected] at hopens
    rw [told_append, told_append, told_append, told_opens hset hopens, Option.bind_some, told_wrote, Option.bind_some,
      told_option _ (by simp), hclosed]
    exact ⟨rfl, hset⟩

/-- What a run does to the outside. -/
def run_outs (random : Nat → Nat → Block 4) (w : WSClientState) (steps : List ClientStep) : List ClientOut :=
  (trace (step random) w steps).flatMap (·.2)

theorem run_told (random : Nat → Nat → Block 4) (steps : List ClientStep) (hs : .set_ws_event_func false ∉ steps) :
    ∀ {w : WSClientState}, w.Holds → w.m_ws_func = true →
      told w.m_connected (run_outs random w steps) = some (final (step random) w steps).m_connected := by
  induction steps with
  | nil => intro w _ _; rfl
  | cons s steps ih =>
    intro w h hset
    rw [List.mem_cons, not_or] at hs
    have hdoes := (@step_does random) h s
    obtain ⟨htold, hset'⟩ := does_told h hset (Ne.symm hs.1) hdoes
    rw [run_outs, trace_cons, List.flatMap_cons, told_append, htold]
    exact ih hs.2 (does_holds h hdoes) hset'

/-- Once it is set, the callback of the events is never told of a second opening without a closing in between, and
what it has been told last is what `is_connected` says. -/
theorem callbacks_alternate (random : Nat → Nat → Block 4) (serverURL : Bytes) (nonce : Block 16)
    (answer : ConnectAnswer) (before steps : List ClientStep) (hs : .set_ws_event_func false ∉ steps) :
    let w := final (step random) (init random serverURL nonce answer).1 (before ++ [.set_ws_event_func true])
    told w.m_connected (run_outs random w steps) = some (final (step random) w steps).m_connected := by
  intro w
  have hw : w.Holds := run_holds random (init_holds random serverURL nonce answer) _
  have hset : w.m_ws_func = true := by
    simp only [w, final_append]
    rfl
  exact run_told random steps hs hw hset

theorem callbacks_alternate_refused :
    let w := final (step fun _ _ => .zeros 4) (init (fun _ _ => .zeros 4) (ascii "ws://127.0.0.1:80/") (.zeros 16)
      (.address (.pending 3))).1 ([] ++ [.set_ws_event_func true])
    told w.m_connected (run_outs (fun _ _ => .zeros 4) w [.turn 1 { connect := some (some "127.0.0.1") }]) =
      some (final (step fun _ _ => .zeros 4) w [.turn 1 { connect := some (some "127.0.0.1") }]).m_connected :=
  callbacks_alternate (fun _ _ => .zeros 4) _ _ _ [] [.turn 1 { connect := some (some "127.0.0.1") }] (by simp)

end WSClientState

end RtcClient
