import RtcClient.Websocket.Handshake
/-!
# What a client connection receives

`mg_mgr_poll` reads from a connection until it is closing, and as long as there is
room in its receive buffer. The response to the handshake opens the connection or
closes it (`opened_by_response`); behind it the messages of the server arrive, each
as a whole (`conversation_received`), and what a client sends arrives in the same way
(`sent_received`).
-/

namespace RtcClient

open Lib

namespace MgConnection

def MG_MAX_RECV_BUF_SIZE : Nat := 3 * 1024 * 1024

/-- `read_conn`, when `recv` gives `chunk`. -/
def read_conn (random : Nat → Block 4) (c : MgConnection) (chunk : Bytes) : MgConnection × List WsEvent :=
  if c.recv.length ≥ MG_MAX_RECV_BUF_SIZE then
    ({ c with is_closing := true }, [.error "max_recv_buf_size reached"])
  else mg_ws_cb random { c with recv := c.recv ++ chunk }

/-- What `mg_mgr_poll` does with a connection that can be read: nothing more if it is closing. -/
def poll_read (random : Nat → Block 4) (c : MgConnection) (chunk : Bytes) : MgConnection × List WsEvent :=
  if c.is_closing then (c, []) else c.read_conn random chunk

/-- The events of a run of polls. -/
def poll_events (random : Nat → Block 4) (c : MgConnection) (chunks : List Bytes) : List WsEvent :=
  (trace (poll_read random) c chunks).flatMap (·.2)

theorem poll_events_append (random : Nat → Block 4) (c : MgConnection) (chunks more : List Bytes) :
    poll_events random c (chunks ++ more) =
      poll_events random c chunks ++ poll_events random (final (poll_read random) c chunks) more := by
  rw [poll_events, trace_append, List.flatMap_append]
  rfl

/-- There is room for what is read. -/
def HasRoom (c : MgConnection) (_chunk : Bytes) : Prop := c.is_closing = true ∨ c.recv.length < MG_MAX_RECV_BUF_SIZE

instance (c : MgConnection) (chunk : Bytes) : Decidable (HasRoom c chunk) := inferInstanceAs (Decidable (_ ∨ _))

variable {random : Nat → Block 4}

/-! ## Polls and reads -/

theorem poll_read_closing {c : MgConnection} (h : c.is_closing = true) (chunk : Bytes) :
    poll_read random c chunk = (c, []) := by
  rw [poll_read, if_pos h]

theorem poll_read_room {c : MgConnection} {chunk : Bytes} (hc : c.is_closing = false) (h : HasRoom c chunk) :
    poll_read random c chunk = cb_read random c chunk := by
  have hlt : c.recv.length < MG_MAX_RECV_BUF_SIZE := h.resolve_left (by simp [hc])
  rw [poll_read, if_neg (by simp [hc]), read_conn, if_neg (Nat.not_le.2 hlt), cb_read]

/-- A closing connection stays closing. -/
theorem cb_read_closing {c : MgConnection} (h : c.is_closing = true) (chunk : Bytes) :
    (cb_read random c chunk).1.is_closing = true := by
  unfold cb_read mg_ws_cb
  simp only
  split_ifs
  · exact (ws_loop_keeps _).1.closing rfl
  · exact (ws_loop_keeps _).1.closing rfl
  · exact (ws_loop_keeps _).1.closing h
  · exact h
  · exact (ws_loop_keeps _).1.closing h

theorem cb_reads_closing (chunks : List Bytes) :
    ∀ {c : MgConnection}, c.is_closing = true → (final (cb_read random) c chunks).is_closing = true := by
  induction chunks with
  | nil => intro c h; exact h
  | cons chunk chunks ih => intro c h; exact ih (cb_read_closing h chunk)

/-- As long as there is room and nothing closes the connection, polls only read. -/
theorem poll_reads (chunks : List Bytes) :
    ∀ {c : MgConnection}, Along (poll_read random) HasRoom c chunks →
      (final (cb_read random) c chunks).is_closing = false →
      final (poll_read random) c chunks = final (cb_read random) c chunks ∧
        trace (poll_read random) c chunks = trace (cb_read random) c chunks := by
  induction chunks with
  | nil => intro c _ _; exact ⟨rfl, rfl⟩
  | cons chunk chunks ih =>
    intro c hroom hopen
    have hc : c.is_closing = false := by
      cases hc : c.is_closing with
      | false => rfl
      | true => exact absurd (cb_reads_closing (chunk :: chunks) hc) (by rw [hopen]; simp)
    have hread := (@poll_read_room random) hc hroom.1
    obtain ⟨hfinal, htrace⟩ := ih (c := (cb_read random c chunk).1) (by rw [← hread]; exact hroom.2) hopen
    rw [final_cons, final_cons, trace_cons, trace_cons, hread, hfinal, htrace]
    exact ⟨rfl, rfl⟩

/-! ## Room -/

/-- A turn adds nothing to the receive buffer. -/
theorem ws_turn_recv_le {c : MgConnection} {r : MgConnection × List WsEvent} (h : c.ws_turn random = some r) :
    r.1.recv.length ≤ c.recv.length := by
  cases hnext : ws_framing.next (c.recv.drop c.ofs) with
  | none =>
    rw [ws_turn_none hnext] at h
    cases h
  | some fk =>
    obtain ⟨f, k⟩ := fk
    obtain ⟨msg, -, h2, -, hk, -, rfl, hpayload, -⟩ := ws_next_some hnext
    obtain ⟨hpos, hle⟩ := ws_framing.takes hnext
    rw [List.length_drop] at hle
    have hofs : c.ofs = (c.recv.take c.ofs).length := by
      rw [List.length_take]
      omega
    rw [ws_turn_some (List.take_append_drop _ _).symm hofs hnext] at h
    obtain rfl := Option.some.inj h
    have hjoin : (ws_join (c.recv.take c.ofs) (msg.flags, ws_payload (c.recv.drop c.ofs))).1.length ≤ c.ofs + k := by
      unfold ws_join
      split_ifs <;> simp only [List.length_append, List.length_cons, List.length_nil, ← hofs, hpayload] <;> omega
    simp only [List.length_append, List.length_drop]
    omega

theorem ws_loop_recv_le (c : MgConnection) : (c.ws_loop random).1.recv.length ≤ c.recv.length := by
  fun_induction ws_loop random c with
  | case1 c h => exact Nat.le_refl _
  | case2 c r h ih => exact Nat.le_trans ih (ws_turn_recv_le h)

theorem cb_read_recv_le (c : MgConnection) (chunk : Bytes) :
    (cb_read random c chunk).1.recv.length ≤ c.recv.length + chunk.length := by
  have hdel : ∀ (l : Bytes) (n : Nat), (mg_iobuf_del l 0 n).length ≤ l.length := by
    intro l n
    simp [mg_iobuf_del]
  unfold cb_read mg_ws_cb
  simp only
  rw [← List.length_append]
  split_ifs
  · exact ws_loop_recv_le _
  · exact Nat.le_trans (ws_loop_recv_le _) (hdel _ _)
  · exact Nat.le_trans (ws_loop_recv_le _) (hdel _ _)
  · exact Nat.le_refl _
  · exact ws_loop_recv_le _

/-- A closing connection reads nothing. -/
theorem room_closing (chunks : List Bytes) :
    ∀ {c : MgConnection}, c.is_closing = true → Along (poll_read random) HasRoom c chunks := by
  induction chunks with
  | nil => intro c _; trivial
  | cons chunk chunks ih =>
    intro c h
    refine ⟨.inl h, ih ?_⟩
    rw [poll_read_closing h]
    exact h

/-- There is room for everything if it is less than the limit altogether. -/
theorem room_for (chunks : List Bytes) :
    ∀ {c : MgConnection}, c.recv.length + chunks.flatten.length < MG_MAX_RECV_BUF_SIZE →
      Along (poll_read random) HasRoom c chunks := by
  induction chunks with
  | nil => intro c _; trivial
  | cons chunk chunks ih =>
    intro c h
    rw [List.flatten_cons, List.length_append] at h
    have hroom : HasRoom c chunk := .inr (by omega)
    refine ⟨hroom, ih ?_⟩
    cases hc : c.is_closing with
    | true =>
      rw [poll_read_closing hc]
      simp only
      omega
    | false =>
      have hle := (@cb_read_recv_le random) c chunk
      rw [poll_read_room hc hroom]
      omega

/-! ## The response -/

/-- What the response to the handshake says, once its head has come. -/
def response (stream : Bytes) : Option Bool :=
  let n := mg_http_get_request_len stream
  if n = 0 then none else some (15 ≤ n && (stream.drop 9).take 3 = ascii "101")

theorem response_none {stream : Bytes} : response stream = none ↔ mg_http_get_request_len stream = 0 := by
  simp [response]

/-- It does not change its mind. -/
theorem response_append {got : Bytes} {b : Bool} (h : response got = some b) (more : Bytes) :
    response (got ++ more) = some b := by
  have hn : mg_http_get_request_len got ≠ 0 := by
    intro h0
    rw [response_none.2 h0] at h
    cases h
  have hle := request_len_le got
  unfold response at h ⊢
  simp only [request_len_append hn more] at h ⊢
  rw [if_neg hn] at h ⊢
  by_cases hlong : 15 ≤ mg_http_get_request_len got
  · rw [List.drop_append_of_le_length (by omega), List.take_append_of_le_length (by rw [List.length_drop]; omega)]
    exact h
  · simpa [hlong] using h

section
variable {c : MgConnection} {got chunk : Bytes} (hc : Waiting c got)
include hc

theorem cb_read_opened (h : response (got ++ chunk) = some true) :
    (cb_read random c chunk).1.is_websocket = true ∧
      ∃ es, (cb_read random c chunk).2 = .wsOpen :: es ∧ .wsOpen ∉ es := by
  obtain ⟨hn, hlong, hstatus⟩ : mg_http_get_request_len (got ++ chunk) ≠ 0 ∧
      15 ≤ mg_http_get_request_len (got ++ chunk) ∧ ((got ++ chunk).drop 9).take 3 = ascii "101" := by
    simpa [response] using h
  unfold cb_read mg_ws_cb
  simp only [hc.websocket, hc.client, hc.recv]
  rw [if_pos (by simp), if_neg (by omega), if_pos (by omega), if_neg (not_or.2 ⟨by omega, not_not.2 hstatus⟩)]
  exact ⟨(ws_loop_keeps _).1.websocket, _, rfl, (ws_loop_keeps _).2.not_open⟩

theorem cb_read_refused (h : response (got ++ chunk) = some false) :
    (cb_read random c chunk).1.is_closing = true ∧ (cb_read random c chunk).1.is_websocket = false ∧
      .wsOpen ∉ (cb_read random c chunk).2 := by
  obtain ⟨hn, hrefused⟩ : mg_http_get_request_len (got ++ chunk) ≠ 0 ∧
      (15 ≤ mg_http_get_request_len (got ++ chunk) → ((got ++ chunk).drop 9).take 3 ≠ ascii "101") := by
    simpa [response] using h
  unfold cb_read mg_ws_cb
  simp only [hc.websocket, hc.client, hc.recv]
  rw [if_pos (by simp)]
  split_ifs with hneg hpos hstatus
  · exact ⟨(ws_loop_keeps _).1.closing rfl, (ws_loop_keeps _).1.websocket, (ws_loop_keeps _).2.not_open⟩
  · exact ⟨(ws_loop_keeps _).1.closing rfl, (ws_loop_keeps _).1.websocket, (ws_loop_keeps _).2.not_open⟩
  · rw [not_or, not_not] at hstatus
    exact absurd hstatus.2 (hrefused (by omega))
  · omega

end

/-- Behind the response nothing opens the connection again, and nothing takes it back. -/
theorem poll_read_decided {c : MgConnection} (h : c.is_websocket = true ∨ c.is_closing = true) (chunk : Bytes) :
    Keeps c (poll_read random c chunk).1 ∧ .wsOpen ∉ (poll_read random c chunk).2 := by
  cases hclosing : c.is_closing with
  | true =>
    rw [poll_read_closing hclosing]
    exact ⟨.refl c, by simp⟩
  | false =>
    have hopen : c.is_websocket = true := h.resolve_right (by simp [hclosing])
    unfold poll_read read_conn
    rw [if_neg (by simp [hclosing])]
    split_ifs
    · exact ⟨⟨rfl, rfl, fun _ => rfl⟩, by simp⟩
    · rw [← cb_read, cb_read_open hopen]
      have hkeeps := (@ws_loop_keeps random) { c with recv := c.recv ++ chunk }
      exact ⟨⟨hkeeps.1.client, hkeeps.1.websocket, hkeeps.1.closing⟩, hkeeps.2.not_open⟩

theorem polls_decided (chunks : List Bytes) :
    ∀ {c : MgConnection}, c.is_websocket = true ∨ c.is_closing = true →
      Keeps c (final (poll_read random) c chunks) ∧ .wsOpen ∉ poll_events random c chunks := by
  induction chunks with
  | nil => intro c _; exact ⟨.refl c, by simp [poll_events]⟩
  | cons chunk chunks ih =>
    intro c h
    obtain ⟨hkeeps, hquiet⟩ := (@poll_read_decided random) h chunk
    obtain ⟨hkeeps', hquiet'⟩ := ih (c := (poll_read random c chunk).1)
      (h.imp (fun ho => hkeeps.websocket.trans ho) hkeeps.closing)
    refine ⟨hkeeps.trans hkeeps', ?_⟩
    rw [poll_events, trace_cons, List.flatMap_cons, List.mem_append, not_or]
    exact ⟨hquiet, hquiet'⟩

/-- However the response is cut into reads, the handler is told that the connection is open exactly if the head of
the response accepts it, once and before anything else; a head that does not closes the connection, and before the
head has come as a whole nothing happens. -/
theorem opened_by_response (chunks : List Bytes) :
    ∀ {c : MgConnection} {got : Bytes}, Waiting c got → response got = none →
      Along (poll_read random) HasRoom c chunks →
      (response (got ++ chunks.flatten) = none →
        poll_events random c chunks = [] ∧
          final (poll_read random) c chunks = { c with recv := got ++ chunks.flatten }) ∧
      (response (got ++ chunks.flatten) = some true →
        (final (poll_read random) c chunks).is_websocket = true ∧
          ∃ es, poll_events random c chunks = .wsOpen :: es ∧ .wsOpen ∉ es) ∧
      (response (got ++ chunks.flatten) = some false →
        (final (poll_read random) c chunks).is_closing = true ∧
          (final (poll_read random) c chunks).is_websocket = false ∧ .wsOpen ∉ poll_events random c chunks) := by
  induction chunks with
  | nil =>
    intro c got hc hgot _
    rw [List.flatten_nil, List.append_nil, hgot]
    refine ⟨fun _ => ⟨rfl, ?_⟩, by simp, by simp⟩
    rw [final_nil, ← hc.recv]
  | cons chunk chunks ih =>
    intro c got hc hgot hroom
    have hread := (@poll_read_room random) hc.closing hroom.1
    rw [List.flatten_cons, ← List.append_assoc, poll_events, trace_cons, List.flatMap_cons, final_cons, hread,
      ← poll_events]
    cases hresponse : response (got ++ chunk) with
    | none =>
      have hwait := (@cb_read_waiting random) hc (response_none.1 hresponse)
      have hnext : Waiting { c with recv := got ++ chunk } (got ++ chunk) :=
        ⟨hc.client, hc.websocket, hc.closing, hc.ofs, rfl⟩
      have hrest := ih hnext hresponse (by have hroom' := hroom.2; rwa [hread, hwait] at hroom')
      rw [hwait, List.nil_append]
      exact hrest
    | some b =>
      rw [response_append hresponse]
      cases b with
      | true =>
        obtain ⟨hopen, es, hes, hquiet⟩ := (@cb_read_opened random) hc hresponse
        obtain ⟨hkeeps, hquiet'⟩ := (@polls_decided random) chunks (.inl hopen)
        refine ⟨by simp, fun _ => ⟨hkeeps.websocket.trans hopen,
          es ++ poll_events random (cb_read random c chunk).1 chunks, ?_, ?_⟩, by simp⟩
        · rw [hes]
          rfl
        · rw [List.mem_append, not_or]
          exact ⟨hquiet, hquiet'⟩
      | false =>
        obtain ⟨hclosing, hopen, hquiet⟩ := (@cb_read_refused random) hc hresponse
        obtain ⟨hkeeps, hquiet'⟩ := (@polls_decided random) chunks (.inr hclosing)
        refine ⟨by simp, by simp, fun _ => ⟨hkeeps.closing hclosing, hkeeps.websocket.trans hopen, ?_⟩⟩
        rw [List.mem_append, not_or]
        exact ⟨hquiet, hquiet'⟩

theorem opened_by_response_refused :
    (final (poll_read fun _ => .zeros 4) {} [ascii "HTTP/1.1 40", ascii "4 Not Found\r\n\r\n"]).is_closing = true ∧
      (final (poll_read fun _ => .zeros 4) {} [ascii "HTTP/1.1 40", ascii "4 Not Found\r\n\r\n"]).is_websocket = false ∧
      .wsOpen ∉ poll_events (fun _ => .zeros 4) {} [ascii "HTTP/1.1 40", ascii "4 Not Found\r\n\r\n"] :=
  (opened_by_response _ (show Waiting {} [] from ⟨rfl, rfl, rfl, rfl, rfl⟩) (by decide) (room_for _ (by decide))).2.2
    (by decide)

/-! ## The conversation -/

/-- Answers do not close the connection. -/
theorem answer_closing (c : MgConnection) (pings : List Bytes) : (c.answer random pings).is_closing = c.is_closing :=
  foldl_keeps MgConnection.is_closing (fun d m => by rw [mg_ws_send_frame]) _ c

/-- The answers to some pings, as the peer reads them. -/
theorem answer_frames {c : MgConnection} (hc : c.is_client = true) {pings : List Bytes}
    (hsize : ∀ p ∈ pings, p.length ≤ 2 ^ 30) :
    ∃ answers, c.answer random pings =
        { c with send := c.send ++ answers, randoms := c.randoms + pings.length } ∧
      ws_framing.split answers = (pings.map (WEBSOCKET_OP_PONG ||| 128, ·), []) := by
  refine ⟨_, ?_, @split_client_frames random c.randoms (pings.map (WEBSOCKET_OP_PONG, ·)) ?_ |>.trans ?_⟩
  · rw [answer, send_all_frames random _ hc, List.length_map]
  · intro m hm
    obtain ⟨p, hp, rfl⟩ := List.mem_map.1 hm
    exact hsize p hp
  · rw [List.map_map]
    rfl

theorem ping_payload {items : List WsItem} {p : Bytes} (h : p ∈ items.flatMap WsItem.pings) :
    ∃ f ∈ items.flatMap WsItem.frames, f.payload = p := by
  obtain ⟨i, hi, hp⟩ := List.mem_flatMap.1 h
  suffices ∃ f ∈ i.frames, f.payload = p by
    obtain ⟨f, hf, he⟩ := this
    exact ⟨f, List.mem_flatMap.2 ⟨i, hi, hf⟩, he⟩
  rcases i with ⟨ping, f⟩ | ⟨binary, f⟩ | ⟨binary, first, inner, last⟩
  · cases ping with
    | true =>
      obtain rfl := List.mem_singleton.1 hp
      exact ⟨_, List.mem_singleton.2 rfl, rfl⟩
    | false => cases hp
  · cases hp
  · obtain ⟨j, hj, hp⟩ := List.mem_filterMap.1 hp
    refine ⟨j.frame, ?_, ?_⟩
    · exact List.mem_cons_of_mem _ (List.mem_append_left _ (List.mem_map_of_mem hj))
    · rcases j with ⟨ping, f⟩ | f
      · cases ping with
        | true => exact Option.some.inj hp
        | false => cases hp
      · cases hp

section
variable {c : MgConnection} (hc : Waiting c []) {head rest : Bytes} (hhead : Accepts head) (items : List WsItem)
  (hsize : ∀ f ∈ items.flatMap WsItem.frames, f.payload.length ≤ 2 ^ 30) (hrest : ws_framing.next rest = none)
  (chunks : List Bytes)
  (hchunks : chunks.flatten = head ++ ((items.flatMap WsItem.frames).flatMap WsFrame.bytes ++ rest))
  (hroom : Along (poll_read random) HasRoom c chunks)
include hc hhead hsize hrest hchunks hroom

/-- The conversation, with the answers the connection queues. -/
theorem conversation_polled :
    poll_events random c chunks = .wsOpen :: items.flatMap WsItem.events ∧
      final (poll_read random) c chunks =
        { ({ c with is_websocket := true, recv := [] } : MgConnection).answer random (items.flatMap WsItem.pings) with
          recv := rest, ofs := 0 } ∧
      (final (poll_read random) c chunks).is_closing = false := by
  have hlong := hhead.long
  obtain ⟨chunks', hstream, hfinal, hevents⟩ := (@cb_reads_accepted random) hhead chunks hc
    (by rw [List.length_nil]; omega) hchunks
  obtain ⟨hread, hleft⟩ := items_read random (c := { c with is_websocket := true, recv := [] }) rfl hc.ofs items hsize
    hrest chunks' hstream
  have hclosing : (final (cb_read random) c chunks).is_closing = false := by
    rw [hfinal, hleft]
    exact (answer_closing _ _).trans hc.closing
  obtain ⟨hpoll, htrace⟩ := poll_reads chunks hroom hclosing
  refine ⟨?_, ?_, ?_⟩
  · rw [poll_events, htrace, hevents, hread]
  · rw [hpoll, hfinal, hleft]
  · rw [hpoll]
    exact hclosing

/-- A server that accepts the handshake and goes on with a conversation: however what it sends is cut into reads, the
handler is told that the connection is open and then gets every message as a whole, in order, and every ping is
answered with its payload. -/
theorem conversation_received :
    poll_events random c chunks = .wsOpen :: items.flatMap WsItem.events ∧
      ∃ answers, final (poll_read random) c chunks =
          { c with
            is_websocket := true, recv := rest, send := c.send ++ answers
            randoms := c.randoms + (items.flatMap WsItem.pings).length } ∧
        ws_framing.split answers =
          ((items.flatMap WsItem.pings).map (WEBSOCKET_OP_PONG ||| 128, ·), []) := by
  obtain ⟨hevents, hfinal, -⟩ := conversation_polled hc hhead items hsize hrest chunks hchunks hroom
  obtain ⟨answers, hanswer, hsplit⟩ := @answer_frames random { c with is_websocket := true, recv := [] } hc.client
    (items.flatMap WsItem.pings) (fun p hp => by
      obtain ⟨f, hf, rfl⟩ := ping_payload hp
      exact hsize f hf)
  refine ⟨hevents, answers, ?_, hsplit⟩
  rw [hfinal, hanswer]
  simp only [hc.ofs]

end

theorem conversation_received_hello :
    let head := ascii "HTTP/1.1 101 OK\r\n\r\n"
    poll_events (fun _ => .zeros 4) {}
        [head.take 10, head.drop 10 ++ [1, 2, 72], [101, 137, 1, 112, 128, 3, 108], [108, 111, 129]] =
      [.wsOpen, .wsCtl 137 [112], .wsCtl 128 [108, 108, 111], .wsMsg 1 [72, 101, 108, 108, 111] 5] := by
  have h := (@conversation_received (fun _ => .zeros 4) {} ⟨rfl, rfl, rfl, rfl, rfl⟩ (ascii "HTTP/1.1 101 OK\r\n\r\n") [129]
    ⟨by decide, by decide, by decide⟩
    [.fragmented false ⟨none, [72, 101]⟩ [.control true ⟨none, [112]⟩] ⟨none, [108, 108, 111]⟩]
    (by decide) (by decide)
    [(ascii "HTTP/1.1 101 OK\r\n\r\n").take 10,
      (ascii "HTTP/1.1 101 OK\r\n\r\n").drop 10 ++ [1, 2, 72], [101, 137, 1, 112, 128, 3, 108], [108, 111, 129]]
    (by decide) (room_for _ (by decide))).1
  exact h

/-! ## Two ends -/

/-- Messages as the items of a conversation. -/
theorem client_items (random : Nat → Block 4) (msgs : List (Bool × Bytes)) :
    ∀ k, ∃ items : List WsItem,
      items.flatMap WsItem.frames = client_frames random k (msgs.map fun m => (message_op m.1, m.2)) ∧
      items.flatMap WsItem.events = msgs.map (fun m => .wsMsg (message_op m.1 ||| 128) m.2 m.2.length) ∧
      items.flatMap WsItem.pings = [] := by
  induction msgs with
  | nil => intro k; exact ⟨[], rfl, rfl, rfl⟩
  | cons m msgs ih =>
    intro k
    obtain ⟨items, hframes, hevents, hpings⟩ := ih (k + 1)
    refine ⟨.message m.1 ⟨some (random k), m.2⟩ :: items, ?_, ?_, ?_⟩
    · rw [List.flatMap_cons, hframes]
      rfl
    · rw [List.flatMap_cons, hevents]
      rfl
    · rw [List.flatMap_cons, hpings]
      rfl

/-- What a client sends, the other end receives: every message as a whole and in order, however the stream is cut
into reads. -/
theorem sent_received (random random' : Nat → Block 4) {s r : MgConnection} (hclient : s.is_client = true)
    (hsend : s.send = []) (hopen : r.is_websocket = true) (hclosing : r.is_closing = false) (hr : Settled r [] [])
    (msgs : List (Bool × Bytes)) (hsize : ∀ m ∈ msgs, m.2.length ≤ 2 ^ 30) (chunks : List Bytes)
    (hchunks : chunks.flatten = (s.send_all random (msgs.map fun m => (message_op m.1, m.2))).send)
    (hroom : Along (poll_read random') HasRoom r chunks) :
    poll_events random' r chunks = msgs.map (fun m => .wsMsg (message_op m.1 ||| 128) m.2 m.2.length) ∧
      final (poll_read random') r chunks = r := by
  obtain ⟨items, hframes, hevents, hpings⟩ := client_items random msgs s.randoms
  rw [send_all_frames random _ hclient, hsend, List.nil_append] at hchunks
  have hpayload : ∀ f ∈ items.flatMap WsItem.frames, f.payload.length ≤ 2 ^ 30 := by
    intro f hf
    rw [hframes] at hf
    have hmem := List.mem_map_of_mem (f := fun f : WsFrame => (f.flags, f.payload)) hf
    rw [client_frames_values, List.map_map] at hmem
    obtain ⟨m, hm, he⟩ := List.mem_map.1 hmem
    have hp : m.2 = f.payload := congrArg Prod.snd he
    rw [← hp]
    exact hsize m hm
  obtain ⟨hes, hfinal⟩ := @items_read random' r [] hr.recv hr.ofs items hpayload rfl chunks
    (by rw [hchunks, hframes, List.append_nil])
  have hback : ({ r.answer random' (items.flatMap WsItem.pings) with recv := [], ofs := 0 } : MgConnection) = r := by
    rw [hpings]
    have hrecv := hr.recv
    have hofs := hr.ofs
    rw [List.nil_append] at hrecv
    rw [List.length_nil] at hofs
    simp only [answer, List.map_nil, send_all, List.foldl_nil, ← hrecv, ← hofs]
  obtain ⟨hreads, htrace⟩ := (@cb_reads_open random') chunks hopen
  have hstays : (final (cb_read random') r chunks).is_closing = false := by
    rw [hreads, hfinal, hback]
    exact hclosing
  obtain ⟨hpoll, hpolls⟩ := poll_reads chunks hroom hstays
  refine ⟨?_, ?_⟩
  · rw [poll_events, hpolls, htrace, ← hevents, ← hes]
    rfl
  · rw [hpoll, hreads, hfinal, hback]

theorem sent_received_two :
    poll_events (fun _ => .zeros 4) { is_client := false, is_websocket := true }
        [[129, 130, 0], [0, 0, 0, 72, 105, 130, 129, 0, 0], [0, 0, 7]] =
      [.wsMsg 129 [72, 105] 2, .wsMsg 130 [7] 1] :=
  (sent_received (fun _ => .zeros 4) (fun _ => .zeros 4) (s := {}) (r := { is_client := false, is_websocket := true })
    rfl rfl rfl rfl ⟨rfl, rfl, rfl⟩ [(false, [72, 105]), (true, [7])] (by decide) _ (by decide)
    (room_for _ (by decide))).1

end MgConnection

end RtcClient
