import RtcClient.Websocket.ClientRuns
/-!
# What the client writes

What has been written on a connection and what is still queued there are the request of
the handshake and then frames: the pings of the timer and the texts of `send_text`, in
the order in which they were queued, with the answers to the server's pings in between
(`Extends`). So the server reads the texts that were accepted, each once and in order,
up to where the connection ends (`texts_read`).
-/

namespace RtcClient

open Lib MgConnection

/-! ## What a connection queues -/

theorem client_frames_append (random : Nat → Block 4) (msgs msgs' : List (UInt8 × Bytes)) :
    ∀ k, client_frames random k (msgs ++ msgs') =
      client_frames random k msgs ++ client_frames random (k + msgs.length) msgs' := by
  induction msgs with
  | nil => intro k; rfl
  | cons m msgs ih =>
    intro k
    obtain ⟨op, payload⟩ := m
    rw [List.cons_append, client_frames, client_frames, ih, List.cons_append, List.length_cons, Nat.add_right_comm,
      Nat.add_assoc]

/-- The answers to pings. -/
def is_pong (m : UInt8 × Bytes) : Bool := m.1 = WEBSOCKET_OP_PONG

/-- `c` becomes `c'`: `bytes` have been written, and frames queued, of which `msgs` are no answers. -/
def Extends (random : Nat → Block 4) (c c' : MgConnection) (bytes : Bytes) (msgs : List (UInt8 × Bytes)) : Prop :=
  ∃ fs : List (UInt8 × Bytes),
    bytes ++ c'.send = c.send ++ (client_frames random c.randoms fs).flatMap WsFrame.bytes ∧
    c'.randoms = c.randoms + fs.length ∧ fs.filter (!is_pong ·) = msgs ∧
    ∀ m ∈ fs, is_pong m = true → m.2.length ≤ 2 ^ 30

section
variable {random : Nat → Block 4} {c c' c'' : MgConnection}

theorem Extends.same (hsend : c'.send = c.send) (hrandoms : c'.randoms = c.randoms) : Extends random c c' [] [] :=
  ⟨[], by simp [hsend, client_frames], hrandoms, rfl, by simp⟩

theorem Extends.trans {bytes bytes' : Bytes} {msgs msgs' : List (UInt8 × Bytes)} (h : Extends random c c' bytes msgs)
    (h' : Extends random c' c'' bytes' msgs') : Extends random c c'' (bytes ++ bytes') (msgs ++ msgs') := by
  obtain ⟨fs, hbytes, hrandoms, hmsgs, hpongs⟩ := h
  obtain ⟨fs', hbytes', hrandoms', hmsgs', hpongs'⟩ := h'
  refine ⟨fs ++ fs', ?_, ?_, ?_, ?_⟩
  · rw [List.append_assoc, hbytes', ← List.append_assoc, hbytes, client_frames_append, List.flatMap_append, hrandoms,
      List.append_assoc]
  · rw [hrandoms', hrandoms, List.length_append, Nat.add_assoc]
  · rw [List.filter_append, hmsgs, hmsgs']
  · intro m hm
    rcases List.mem_append.1 hm with h | h
    · exact hpongs m h
    · exact hpongs' m h

theorem mg_ws_send_extends (hclient : c.is_client = true) (payload : Bytes) {op : UInt8}
    (hop : op ≠ WEBSOCKET_OP_PONG) : Extends random c (c.mg_ws_send random payload op).1 [] [(op, payload)] := by
  refine ⟨[(op, payload)], ?_, ?_, ?_, ?_⟩
  · rw [mg_ws_send_frame]
    simp [client_frames, sent_frame, hclient]
  · rw [mg_ws_send_frame]
    simp [hclient]
  · simp [is_pong, hop]
  · simp [is_pong, hop]

theorem pong_extends (hclient : c.is_client = true) {payload : Bytes} (hsize : payload.length ≤ 2 ^ 30) :
    Extends random c (c.mg_ws_send random payload WEBSOCKET_OP_PONG).1 [] [] := by
  refine ⟨[(WEBSOCKET_OP_PONG, payload)], ?_, ?_, rfl, ?_⟩
  · rw [mg_ws_send_frame]
    simp [client_frames, sent_frame, hclient]
  · rw [mg_ws_send_frame]
    simp [hclient]
  · rw [List.forall_mem_singleton]
    exact fun _ => hsize

theorem ws_switch_extends (hclient : c.is_client = true) (flags : UInt8) {s : Bytes} (hsize : s.length ≤ 2 ^ 30) :
    Extends random c (c.ws_switch random flags s).1 [] [] := by
  unfold ws_switch
  simp only
  split_ifs
  · exact .same rfl rfl
  · exact pong_extends hclient hsize
  all_goals exact .same rfl rfl

theorem ws_turn_extends (hclient : c.is_client = true) {r : MgConnection × List WsEvent}
    (h : c.ws_turn random = some r) : Extends random c r.1 [] [] := by
  cases hnext : ws_framing.next (c.recv.drop c.ofs) with
  | none =>
    rw [ws_turn_none hnext] at h
    cases h
  | some fk =>
    obtain ⟨f, k⟩ := fk
    obtain ⟨msg, -, -, hsize, -, -, -, hpayload, -⟩ := ws_next_some hnext
    obtain ⟨hpos, hle⟩ := ws_framing.takes hnext
    rw [List.length_drop] at hle
    have hofs : c.ofs = (c.recv.take c.ofs).length := by
      rw [List.length_take]
      omega
    rw [ws_turn_some (List.take_append_drop _ _).symm hofs hnext] at h
    obtain rfl := Option.some.inj h
    have hswitch := (@ws_switch_extends random { c with recv := c.recv.take c.ofs }) hclient f.1
      (s := f.2) (by rw [hpayload]; exact hsize)
    exact hswitch

theorem ws_loop_extends (hclient : c.is_client = true) : Extends random c (c.ws_loop random).1 [] [] := by
  fun_induction ws_loop random c with
  | case1 c h => exact .same rfl rfl
  | case2 c r h ih =>
    have hkeeps := (ws_turn_keeps h).1
    exact (ws_turn_extends hclient h).trans (ih (hkeeps.client.trans hclient))

theorem mg_ws_cb_extends (hclient : c.is_client = true) : Extends random c (mg_ws_cb random c).1 [] [] := by
  unfold mg_ws_cb
  simp only
  split_ifs
  · exact ws_loop_extends (c := { c with is_closing := true }) hclient
  · exact ws_loop_extends
      (c := { c with is_closing := true, recv := mg_iobuf_del c.recv 0 (mg_http_get_request_len c.recv).toNat }) hclient
  · exact ws_loop_extends
      (c := { c with is_websocket := true, recv := mg_iobuf_del c.recv 0 (mg_http_get_request_len c.recv).toNat })
      hclient
  · exact .same rfl rfl
  · exact ws_loop_extends hclient

end

namespace Connection

variable {random : Nat → Block 4} {c : Connection}

theorem read_conn_extends (hclient : c.is_client = true) (answer : ReadAnswer) :
    Extends random c.toMgConnection (c.read_conn random answer).1.toMgConnection [] [] := by
  unfold read_conn
  split_ifs
  · exact .same rfl rfl
  · cases answer with
    | got chunk => exact mg_ws_cb_extends (c := { c.toMgConnection with recv := c.recv ++ chunk }) hclient
    | _ => exact .same rfl rfl

/-- What is written has been queued. -/
theorem write_conn_extends (answer : WriteAnswer) :
    Extends random c.toMgConnection (c.write_conn answer).1.toMgConnection (c.write_conn answer).2 [] := by
  cases answer with
  | wrote n =>
    unfold write_conn
    simp only
    split_ifs
    · exact .same rfl rfl
    · exact ⟨[], by simp [mg_iobuf_del, client_frames], rfl, rfl, by simp⟩
  | _ => exact .same rfl rfl

theorem turn_extends (hclient : c.is_client = true) (answer : TurnAnswer) :
    Extends random c.toMgConnection (c.turn random answer).1.toMgConnection (c.turn random answer).2.2 [] := by
  unfold turn
  split_ifs
  · exact .same rfl rfl
  · cases answer.connect with
    | none => exact .same rfl rfl
    | some error =>
      cases error with
      | none => exact .same rfl rfl
      | some rem => exact .same rfl rfl
  · have hread : Extends random c.toMgConnection (c.if_readable random answer.read).1.toMgConnection [] [] := by
      cases answer.read with
      | none => exact .same rfl rfl
      | some a => exact read_conn_extends hclient a
    refine hread.trans ?_
    cases answer.write with
    | none => exact .same rfl rfl
    | some a => exact write_conn_extends a

end Connection

/-! ## What comes of the outputs -/

/-- What is written on connection `k`. -/
def written (k : Nat) : ClientOut → Bytes
  | .wrote id data => if id = k then data else []
  | _ => []

/-- What the client queues on connection `k`. -/
def queued_on (k : Nat) : ClientOut → Option (UInt8 × Bytes)
  | .queued id op payload => if id = k then some (op, payload) else none
  | _ => none

def wire (k : Nat) (outs : List ClientOut) : Bytes := outs.flatMap (written k)

def queued (k : Nat) (outs : List ClientOut) : List (UInt8 × Bytes) := outs.filterMap (queued_on k)

/-- Nothing is written or queued but on connection `k`. -/
def Touches (k : Nat) (outs : List ClientOut) : Prop := ∀ j ≠ k, wire j outs = [] ∧ queued j outs = []

/-- Nothing is written or queued. -/
def Mute (outs : List ClientOut) : Prop := ∀ j, wire j outs = [] ∧ queued j outs = []

section
variable {outs outs' : List ClientOut}

theorem wire_append (k : Nat) (outs outs' : List ClientOut) : wire k (outs ++ outs') = wire k outs ++ wire k outs' :=
  List.flatMap_append

theorem queued_append (k : Nat) (outs outs' : List ClientOut) :
    queued k (outs ++ outs') = queued k outs ++ queued k outs' :=
  List.filterMap_append

theorem Mute.append (h : Mute outs) (h' : Mute outs') : Mute (outs ++ outs') := by
  intro j
  rw [wire_append, queued_append, (h j).1, (h j).2, (h' j).1, (h' j).2]
  exact ⟨rfl, rfl⟩

theorem Mute.nil : Mute [] := fun _ => ⟨rfl, rfl⟩

theorem Mute.option {α : Type} {f : α → ClientOut} (hf : ∀ x, Mute [f x]) (o : Option α) : Mute (o.map f).toList := by
  cases o with
  | none => exact .nil
  | some x => exact hf x

theorem Mute.closed_out (w : WSClientState) : Mute w.closed_out := by
  unfold WSClientState.closed_out
  split_ifs
  · exact fun _ => ⟨rfl, rfl⟩
  · exact .nil

theorem Mute.sockets (answer : ConnectAnswer) : Mute answer.sockets := by
  cases answer with
  | address socket => exact .option (fun _ _ => ⟨rfl, rfl⟩) socket.fd
  | _ => exact .nil

/-- The handler neither writes nor queues. -/
theorem Mute.handle (es : List WsEvent) : ∀ w : WSClientState, Mute (w.handle es).2 := by
  induction es with
  | nil => intro w; exact .nil
  | cons e es ih =>
    intro w
    refine Mute.append ?_ (ih _)
    cases e with
    | wsOpen =>
      rw [WSClientState.on_event_handle]
      split_ifs
      · exact fun _ => ⟨rfl, rfl⟩
      · exact .nil
    | wsMsg flags data len =>
      rw [WSClientState.on_event_handle]
      split_ifs
      · exact fun _ => ⟨rfl, rfl⟩
      · exact .nil
    | wsCtl flags data => exact .nil
    | error text => exact .nil
    | close => exact .closed_out w

theorem wire_wrote (j k : Nat) (data : Bytes) :
    wire j (WSClientState.wrote_out k data) = if k = j then data else [] := by
  by_cases hdata : data = []
  · simp [WSClientState.wrote_out, hdata, wire]
  · by_cases hk : k = j <;> simp [WSClientState.wrote_out, hdata, wire, written, hk]

theorem queued_wrote (j k : Nat) (data : Bytes) : queued j (WSClientState.wrote_out k data) = [] := by
  unfold WSClientState.wrote_out
  split_ifs <;> rfl

end

/-! ## The story of a connection -/

/-- What has been written on connection `k` and what is pending: the request, then `n` frames. -/
def Story (random : Nat → Nat → Block 4) (url : Bytes) (k : Nat) (outs : List ClientOut) (pending : Bytes) (n : Nat) :
    Prop :=
  ∃ nonce fs, wire k outs ++ pending =
      ws_request url ctrl_protocol nonce ++ (client_frames (random k) 0 fs).flatMap WsFrame.bytes ∧
    n = fs.length ∧ fs.filter (!is_pong ·) = queued k outs ∧ ∀ m ∈ fs, is_pong m = true → m.2.length ≤ 2 ^ 30

section
variable {random : Nat → Nat → Block 4} {url : Bytes} {k : Nat} {outs new : List ClientOut}

theorem Story.extend {c c' : MgConnection} (h : Story random url k outs c.send c.randoms)
    (hext : Extends (random k) c c' (wire k new) (queued k new)) :
    Story random url k (outs ++ new) c'.send c'.randoms := by
  obtain ⟨nonce, fs, hwire, hn, hqueued, hpongs⟩ := h
  obtain ⟨fs', hbytes, hrandoms, hqueued', hpongs'⟩ := hext
  refine ⟨nonce, fs ++ fs', ?_, ?_, ?_, ?_⟩
  · rw [wire_append, List.append_assoc, hbytes, ← List.append_assoc, hwire, client_frames_append, List.flatMap_append,
      hn, Nat.zero_add, List.append_assoc]
  · rw [hrandoms, hn, List.length_append]
  · rw [List.filter_append, hqueued, hqueued', queued_append]
  · intro m hm
    rcases List.mem_append.1 hm with h | h
    · exact hpongs m h
    · exact hpongs' m h

theorem Story.other {pending : Bytes} {n : Nat} (h : Story random url k outs pending n)
    (hnew : wire k new = [] ∧ queued k new = []) : Story random url k (outs ++ new) pending n := by
  obtain ⟨nonce, fs, hwire, hn, hqueued, hpongs⟩ := h
  refine ⟨nonce, fs, ?_, hn, ?_, hpongs⟩
  · rw [wire_append, hnew.1, List.append_nil]
    exact hwire
  · rw [queued_append, hnew.2, List.append_nil]
    exact hqueued

end

/-- Every connection there has been has its story, and the current one has its own. -/
structure Stories (random : Nat → Nat → Block 4) (url : Bytes) (w : WSClientState) (outs : List ClientOut) : Prop where
  server : w.m_server_url = url
  current : ∀ c ∈ w.conns, 1 ≤ c.id ∧ c.id ≤ w.nextid ∧ Story random url c.id outs c.send c.randoms
  past : ∀ k, 1 ≤ k → k ≤ w.nextid → ∃ pending n, Story random url k outs pending n
  future : ∀ k, k = 0 ∨ w.nextid < k → wire k outs = [] ∧ queued k outs = []
  sizes : ∀ k, ∀ m ∈ queued k outs, m.2.length ≤ 2 ^ 30

section
variable {random : Nat → Nat → Block 4} {url : Bytes} {w v : WSClientState} {outs new : List ClientOut}

theorem Stories.mute (h : Stories random url w outs) (hnew : Mute new) (hserver : v.m_server_url = w.m_server_url)
    (hconns : v.conns = w.conns ∨ v.conns = []) (hnext : v.nextid = w.nextid) :
    Stories random url v (outs ++ new) where
  server := hserver.trans h.server
  current := by
    rw [hnext]
    rcases hconns with hc | hc
    · rw [hc]
      intro c hmem
      obtain ⟨hpos, hle, hstory⟩ := h.current c hmem
      exact ⟨hpos, hle, hstory.other (hnew c.id)⟩
    · rw [hc]
      simp
  past := by
    rw [hnext]
    intro k hpos hle
    obtain ⟨pending, n, hstory⟩ := h.past k hpos hle
    exact ⟨pending, n, hstory.other (hnew k)⟩
  future := by
    rw [hnext]
    intro k hk
    rw [wire_append, queued_append, (hnew k).1, (hnew k).2, List.append_nil, List.append_nil]
    exact h.future k hk
  sizes := by
    intro k
    rw [queued_append, (hnew k).2, List.append_nil]
    exact h.sizes k

theorem Stories.extend (h : Stories random url w outs) {c d : Connection} (hconns : w.conns = [c]) (hid : d.id = c.id)
    (hext : Extends (random c.id) c.toMgConnection d.toMgConnection (wire c.id new) (queued c.id new))
    (hothers : Touches c.id new) (hsizes : ∀ m ∈ queued c.id new, m.2.length ≤ 2 ^ 30)
    (hserver : v.m_server_url = w.m_server_url) (hconns' : v.conns = [d]) (hnext : v.nextid = w.nextid) :
    Stories random url v (outs ++ new) := by
  obtain ⟨hpos, hle, hstory⟩ := h.current c (by rw [hconns]; exact List.mem_singleton_self c)
  have hstory' := hstory.extend hext
  refine ⟨hserver.trans h.server, ?_, ?_, ?_, ?_⟩
  · rw [hconns', List.forall_mem_singleton, hid, hnext]
    exact ⟨hpos, hle, hstory'⟩
  · rw [hnext]
    intro k hkpos hkle
    by_cases hk : k = c.id
    · rw [hk]
      exact ⟨_, _, hstory'⟩
    · obtain ⟨pending, n, hpast⟩ := h.past k hkpos hkle
      exact ⟨pending, n, hpast.other (hothers k hk)⟩
  · rw [hnext]
    intro k hk
    have hne : k ≠ c.id := by omega
    rw [wire_append, queued_append, (hothers k hne).1, (hothers k hne).2, List.append_nil, List.append_nil]
    exact h.future k hk
  · intro k m hm
    rw [queued_append, List.mem_append] at hm
    rcases hm with hm | hm
    · exact h.sizes k m hm
    · by_cases hk : k = c.id
      · rw [hk] at hm
        exact hsizes m hm
      · rw [(hothers k hk).2] at hm
        cases hm

/-- A new connection begins its story. -/
theorem Stories.connect (h : Stories random url w outs) (hnew : Mute new) (nonce : Block 16) (answer : ConnectAnswer)
    (hserver : v.m_server_url = w.m_server_url) (hconns : v.conns = [(w.new_connection nonce answer).1])
    (hnext : v.nextid = w.nextid + 1) : Stories random url v (outs ++ new) := by
  obtain ⟨hid, hsend, hrandoms⟩ : (w.new_connection nonce answer).1.id = w.nextid + 1 ∧
      (w.new_connection nonce answer).1.send = ws_request url ctrl_protocol nonce ∧
      (w.new_connection nonce answer).1.randoms = 0 := by
    rw [← h.server]
    cases answer with
    | address socket => cases socket <;> exact ⟨rfl, rfl, rfl⟩
    | _ => exact ⟨rfl, rfl, rfl⟩
  obtain ⟨hwire, hqueued⟩ : wire (w.nextid + 1) (outs ++ new) = [] ∧ queued (w.nextid + 1) (outs ++ new) = [] := by
    obtain ⟨hwire, hqueued⟩ := h.future (w.nextid + 1) (.inr (Nat.lt_succ_self _))
    rw [wire_append, queued_append, (hnew _).1, (hnew _).2, hwire, hqueued]
    exact ⟨rfl, rfl⟩
  have hstory : Story random url (w.nextid + 1) (outs ++ new) (ws_request url ctrl_protocol nonce) 0 :=
    ⟨nonce, [], by rw [hwire]; simp [client_frames], rfl, by rw [hqueued]; rfl, by simp⟩
  refine ⟨hserver.trans h.server, ?_, ?_, ?_, ?_⟩
  · rw [hconns, List.forall_mem_singleton, hid, hsend, hrandoms, hnext]
    exact ⟨Nat.succ_le_succ (Nat.zero_le _), Nat.le_refl _, hstory⟩
  · rw [hnext]
    intro k hpos hle
    by_cases hk : k = w.nextid + 1
    · rw [hk]
      exact ⟨_, _, hstory⟩
    · obtain ⟨pending, n, hpast⟩ := h.past k hpos (by omega)
      exact ⟨pending, n, hpast.other (hnew k)⟩
  · rw [hnext]
    intro k hk
    rw [wire_append, queued_append, (hnew k).1, (hnew k).2, List.append_nil, List.append_nil]
    exact h.future k (by omega)
  · intro k
    rw [queued_append, (hnew k).2, List.append_nil]
    exact h.sizes k

end

/-- A frame of the client is queued. -/
theorem queued_touches {c : Connection} {op : UInt8} {payload : Bytes} {after : List ClientOut} (hafter : Mute after) :
    wire c.id (.queued c.id op payload :: after) = [] ∧
      queued c.id (.queued c.id op payload :: after) = [(op, payload)] ∧
      Touches c.id (.queued c.id op payload :: after) := by
  refine ⟨?_, ?_, ?_⟩
  · rw [wire, List.flatMap_cons, ← wire, (hafter c.id).1]
    rfl
  · rw [queued, List.filterMap_cons_some (b := (op, payload)) (by simp [queued_on]), ← queued, (hafter c.id).2]
  · intro j hj
    rw [wire, List.flatMap_cons, ← wire, (hafter j).1, queued, List.filterMap_cons_none (by simp [queued_on, hj.symm]),
      ← queued, (hafter j).2]
    exact ⟨rfl, rfl⟩

namespace WSClientState

section
variable {random : Nat → Nat → Block 4} {url : Bytes}

/-- The outputs of a turn, without the closing. -/
theorem turn_touches {w : WSClientState} (es : List WsEvent) (k : Nat) (data : Bytes) :
    wire k ((w.handle es).2 ++ wrote_out k data) = data ∧ queued k ((w.handle es).2 ++ wrote_out k data) = [] ∧
      Touches k ((w.handle es).2 ++ wrote_out k data) := by
  have hmute := Mute.handle es w
  refine ⟨?_, ?_, ?_⟩
  · rw [wire_append, (hmute k).1, wire_wrote, if_pos rfl]
    rfl
  · rw [queued_append, (hmute k).2, queued_wrote]
    rfl
  · intro j hj
    rw [wire_append, queued_append, (hmute j).1, (hmute j).2, wire_wrote, if_neg hj.symm, queued_wrote]
    exact ⟨rfl, rfl⟩

theorem does_stories {w w' : WSClientState} {s : ClientStep} {outs new : List ClientOut} (h : w.Holds)
    (hsize : ∀ msg, s = .send_text msg → msg.length ≤ 2 ^ 30) (hst : Stories random url w outs)
    (hdoes : Does random w s w' new) : Stories random url w' (outs ++ new) := by
  have hping : (ascii "ping").length ≤ 2 ^ 30 := by decide
  cases hdoes with
  | stays _ _ hout =>
    have hmute : Mute new := by
      rcases hout with rfl | rfl
      · exact .nil
      · exact fun _ => ⟨rfl, rfl⟩
    exact hst.mute hmute rfl (.inl rfl) rfl
  | set_text_received_func set => exact hst.mute .nil rfl (.inl rfl) rfl
  | set_ws_event_func set => exact hst.mute .nil rfl (.inl rfl) rfl
  | no_connect _ hout =>
    have hmute : Mute new := by
      rcases hout with rfl | rfl
      · exact .nil
      · exact .closed_out w
    exact hst.mute hmute rfl (.inr rfl) rfl
  | @connect nonce answer before _ _ hout =>
    have hmute : Mute before := by
      rcases hout with ⟨-, rfl⟩ | rfl
      · exact .nil
      · exact .closed_out w
    exact hst.connect (hmute.append (.sockets answer)) nonce answer rfl rfl rfl
  | @ping nonce answer c hconns _ =>
    obtain ⟨hwire, hqueued, htouches⟩ := (@queued_touches c WEBSOCKET_OP_PING (ascii "ping")) .nil
    refine hst.extend (d := c.queue (random c.id) (ascii "ping") WEBSOCKET_OP_PING) hconns rfl ?_ htouches ?_ rfl rfl
      rfl
    · rw [hwire, hqueued]
      exact mg_ws_send_extends (h.conn hconns).2.2.client (ascii "ping") (by decide)
    · rw [hqueued, List.forall_mem_singleton]
      exact hping
  | @send_text msg c hconns _ =>
    obtain ⟨hwire, hqueued, htouches⟩ :=
      (@queued_touches c WEBSOCKET_OP_TEXT msg [.returned true]) (fun _ => ⟨rfl, rfl⟩)
    refine hst.extend (d := c.queue (random c.id) msg WEBSOCKET_OP_TEXT) hconns rfl ?_ htouches ?_ rfl rfl rfl
    · rw [hwire, hqueued]
      exact mg_ws_send_extends (h.conn hconns).2.2.client msg (by decide)
    · rw [hqueued, List.forall_mem_singleton]
      exact hsize msg rfl
  | @resolved c socket hconns hresolving =>
    have hmute : Mute (socket.fd.map ClientOut.socket).toList := .option (fun _ _ => ⟨rfl, rfl⟩) _
    refine hst.extend (d := (c.mg_connect_resolved socket).1) hconns ?_ ?_ (fun j _ => hmute j) ?_ rfl rfl rfl
    · cases socket <;> rfl
    · rw [(hmute c.id).1, (hmute c.id).2]
      cases socket <;> exact .same rfl rfl
    · rw [(hmute c.id).2]
      simp
  | @not_resolved c text hconns hresolving =>
    exact hst.extend (d := (c.mg_error text).1) hconns rfl (.same rfl rfl) (fun j _ => Mute.nil j)
      (by simp [queued]) rfl rfl rfl
  | @turn c answer hconns _ =>
    obtain ⟨-, -, hsound⟩ := h.conn hconns
    obtain ⟨hwire, hqueued, htouches⟩ := turn_touches (w := w) (c.turn (random c.id) answer).2.1 c.id
      (c.turn (random c.id) answer).2.2
    refine hst.extend hconns (Connection.turn_sound hsound answer).2.1 ?_ htouches (by rw [hqueued]; simp) rfl rfl rfl
    rw [hwire, hqueued]
    exact Connection.turn_extends hsound.client answer
  | @close c answer hconns _ =>
    obtain ⟨-, -, hsound⟩ := h.conn hconns
    obtain ⟨hwire, hqueued, htouches⟩ := turn_touches (w := w) (c.turn (random c.id) answer).2.1 c.id
      (c.turn (random c.id) answer).2.2
    have hturn := hst.extend (v := { w with conns := [(c.turn (random c.id) answer).1] }) hconns
      (Connection.turn_sound hsound answer).2.1
      (by rw [hwire, hqueued]; exact Connection.turn_extends hsound.client answer) htouches (by rw [hqueued]; simp)
      rfl rfl rfl
    have hmute : Mute (((c.turn (random c.id) answer).1.fd.closed.map ClientOut.closesocket).toList ++ w.closed_out) :=
      Mute.append (.option (fun _ _ => ⟨rfl, rfl⟩) _) (.closed_out w)
    have hclosed := hturn.mute (v := w.dropped) hmute rfl (.inr rfl) rfl
    simpa only [List.append_assoc] using hclosed

theorem run_stories (steps : List ClientStep) (hsize : ∀ msg, .send_text msg ∈ steps → msg.length ≤ 2 ^ 30) :
    ∀ {w : WSClientState} {outs : List ClientOut}, w.Holds → Stories random url w outs →
      Stories random url (final (step random) w steps) (outs ++ run_outs random w steps) := by
  induction steps with
  | nil =>
    intro w outs _ hst
    rw [run_outs, trace_nil, List.flatMap_nil, List.append_nil]
    exact hst
  | cons s steps ih =>
    intro w outs h hst
    have hdoes := (@step_does random) h s
    have hnext := does_stories h (fun msg hs => hsize msg (by rw [← hs]; exact List.mem_cons_self)) hst hdoes
    rw [run_outs, trace_cons, List.flatMap_cons, ← run_outs, ← List.append_assoc]
    exact ih (fun msg hm => hsize msg (List.mem_cons_of_mem _ hm)) (does_holds h hdoes) hnext

theorem init_stories (nonce : Block 16) (answer : ConnectAnswer) :
    Stories random url (init random url nonce answer).1 (init random url nonce answer).2 := by
  have hidle : Holds { m_server_url := url } := .idle rfl rfl rfl
  have hst : Stories random url { m_server_url := url } [] := by
    refine ⟨rfl, by simp, ?_, fun _ _ => ⟨rfl, rfl⟩, by simp [queued]⟩
    intro k hpos hle
    exact absurd (Nat.le_trans hpos hle) (Nat.not_succ_le_zero 0)
  exact does_stories hidle (s := .timer nonce answer) (by simp) hst ((@on_timer_does random) hidle nonce answer)

end

/-! ## The server -/

/-- What a server reads: the request, then frames. -/
def server_frames (bytes : Bytes) : List (UInt8 × Bytes) :=
  let n := mg_http_get_request_len bytes
  if n ≤ 0 then [] else (ws_framing.split (bytes.drop n.toNat)).1

/-- The texts of some frames. -/
def texts (fs : List (UInt8 × Bytes)) : List Bytes :=
  (fs.filter (fun f => f.1 &&& 15 = WEBSOCKET_OP_TEXT)).map Prod.snd

/-- Of the request and frames a part has been written: the server has read some of the frames. -/
theorem server_frames_prefix {random : Nat → Block 4} {request bytes pending : Bytes} {fs : List (UInt8 × Bytes)}
    (hpos : 0 < request.length) (hrequest : mg_http_get_request_len request = request.length)
    (hsize : ∀ m ∈ fs, m.2.length ≤ 2 ^ 30)
    (h : bytes ++ pending = request ++ (client_frames random 0 fs).flatMap WsFrame.bytes) :
    server_frames bytes <+: fs.map (fun m => (m.1 ||| 128, m.2)) := by
  by_cases hshort : bytes.length < request.length
  · obtain ⟨more, hmore⟩ : bytes <+: request :=
      List.prefix_of_prefix_length_le ⟨_, h⟩ (List.prefix_append _ _) (Nat.le_of_lt hshort)
    have hne : more ≠ [] := by
      rintro rfl
      rw [← hmore, List.append_nil] at hshort
      exact absurd hshort (Nat.lt_irrefl _)
    have hzero := request_len_part (by rw [hmore]; exact hrequest) hne
    rw [server_frames, hzero]
    exact List.nil_prefix
  · obtain ⟨sent, hsent⟩ : request <+: bytes :=
      List.prefix_of_prefix_length_le ⟨_, h.symm⟩ (List.prefix_append _ _) (Nat.le_of_not_lt hshort)
    have hframes : sent ++ pending = (client_frames random 0 fs).flatMap WsFrame.bytes := by
      rw [← hsent, List.append_assoc] at h
      exact List.append_cancel_left h
    have hn : mg_http_get_request_len bytes = request.length := by
      rw [← hsent, request_len_append (by rw [hrequest]; omega), hrequest]
    have hsplit := ws_framing.split_append sent pending
    rw [hframes, split_client_frames random 0 hsize] at hsplit
    rw [server_frames, hn, if_neg (by omega), Int.toNat_natCast, ← hsent, List.drop_left]
    exact ⟨_, (congrArg Prod.fst hsplit).symm⟩

theorem texts_prefix {fs fs' : List (UInt8 × Bytes)} (h : fs <+: fs') : texts fs <+: texts fs' :=
  (h.filter _).map _

/-- The final bit and the answers to pings do not matter for the texts. -/
theorem texts_sent (fs : List (UInt8 × Bytes)) :
    texts (fs.map fun m => (m.1 ||| 128, m.2)) = texts (fs.filter (!is_pong ·)) := by
  have hop : ∀ op : UInt8, (op ||| 128) &&& 15 = op &&& 15 := of_byte_values (by decide +kernel)
  induction fs with
  | nil => rfl
  | cons m fs ih =>
    unfold texts at ih ⊢
    rw [List.map_cons, List.filter_cons, List.filter_cons]
    simp only [hop]
    by_cases hpong : is_pong m = true
    · have hpong' : m.1 &&& 15 ≠ WEBSOCKET_OP_TEXT := by
        rw [is_pong, decide_eq_true_eq] at hpong
        rw [hpong]
        decide
      simp only [hpong, hpong', decide_false, Bool.not_true, Bool.false_eq_true, if_false]
      exact ih
    · simp only [hpong, Bool.not_false, if_true, List.filter_cons]
      split_ifs
      · rw [List.map_cons, List.map_cons, ih]
      · exact ih

/-- The text of a call of `send_text` that returned true. -/
def accepted : ClientStep × List ClientOut → Option Bytes
  | (.send_text msg, outs) => if .returned true ∈ outs then some msg else none
  | _ => none

/-- A text that is queued, on whatever connection. -/
def queued_text : ClientOut → Option Bytes
  | .queued _ op payload => if op = WEBSOCKET_OP_TEXT then some payload else none
  | _ => none

/-- Outputs that queue no text. -/
def NoText (outs : List ClientOut) : Prop := outs.filterMap queued_text = []

theorem NoText.append {outs outs' : List ClientOut} (h : NoText outs) (h' : NoText outs') : NoText (outs ++ outs') := by
  rw [NoText, List.filterMap_append, h, h']
  rfl

theorem NoText.option {α : Type} {f : α → ClientOut} (hf : ∀ x, queued_text (f x) = none) (o : Option α) :
    NoText (o.map f).toList := by
  cases o with
  | none => rfl
  | some x => exact List.filterMap_cons_none (hf x)

theorem NoText.closed_out (w : WSClientState) : NoText w.closed_out := by
  unfold WSClientState.closed_out
  split_ifs <;> rfl

theorem NoText.handle (es : List WsEvent) : ∀ w : WSClientState, NoText (w.handle es).2 := by
  induction es with
  | nil => intro w; rfl
  | cons e es ih =>
    intro w
    refine NoText.append ?_ (ih _)
    cases e with
    | wsOpen => rw [on_event_handle]; split_ifs <;> rfl
    | wsMsg flags data len => rw [on_event_handle]; split_ifs <;> rfl
    | wsCtl flags data => rfl
    | error text => rfl
    | close => exact .closed_out w

theorem NoText.wrote (k : Nat) (data : Bytes) : NoText (wrote_out k data) := by
  unfold wrote_out
  split_ifs <;> rfl

/-- A step queues a text exactly if it is an accepted one. -/
theorem does_accepted {random : Nat → Nat → Block 4} {w w' : WSClientState} {s : ClientStep} {outs : List ClientOut}
    (hdoes : Does random w s w' outs) : outs.filterMap queued_text = (accepted (s, outs)).toList := by
  cases hdoes with
  | stays _ _ hout => rcases hout with rfl | rfl <;> cases s <;> rfl
  | no_connect _ hout =>
    rcases hout with rfl | rfl
    · rfl
    · exact NoText.closed_out w
  | @connect nonce answer before _ _ hout =>
    have hbefore : NoText before := by
      rcases hout with ⟨-, rfl⟩ | rfl
      · rfl
      · exact NoText.closed_out w
    refine hbefore.append ?_
    cases answer with
    | address socket => exact NoText.option (fun _ => rfl) socket.fd
    | _ => rfl
  | send_text _ _ => rfl
  | resolved socket _ _ => exact NoText.option (fun _ => rfl) socket.fd
  | @turn c answer _ _ => exact (NoText.handle _ w).append (.wrote _ _)
  | @close c answer _ _ =>
    exact (((NoText.handle _ w).append (.wrote _ _)).append (.option (fun _ => rfl) _)).append (.closed_out w)
  | _ => rfl

theorem run_accepted (random : Nat → Nat → Block 4) (steps : List ClientStep) :
    ∀ {w : WSClientState}, w.Holds →
      (run_outs random w steps).filterMap queued_text = (trace (step random) w steps).filterMap accepted := by
  induction steps with
  | nil => intro w _; rfl
  | cons s steps ih =>
    intro w h
    have hdoes := (@step_does random) h s
    have hrest := ih (does_holds h hdoes)
    rw [run_outs, trace_cons, List.flatMap_cons, List.filterMap_append, does_accepted hdoes, ← run_outs, hrest]
    cases hout : accepted (s, (w.step random s).2) with
    | none => rw [List.filterMap_cons_none hout]; rfl
    | some msg => rw [List.filterMap_cons_some hout]; rfl

theorem ws_request_pos (url : Bytes) (nonce : Block 16) : 0 < (ws_request url ctrl_protocol nonce).length := by
  have hget : 0 < (ascii "GET ").length := by decide
  simp only [ws_request, List.length_append]
  omega

/-- On each connection the server reads texts that were queued on it. -/
theorem stories_texts {random : Nat → Nat → Block 4} {url : Bytes} {w : WSClientState} {outs : List ClientOut}
    (h : Stories random url w outs) (hurl : ∀ c ∈ url, 32 ≤ c) (k : Nat) :
    texts (server_frames (wire k outs)) <+: texts (queued k outs) := by
  by_cases hk : 1 ≤ k ∧ k ≤ w.nextid
  · obtain ⟨pending, n, nonce', fs, hwire, -, hqueued, hpongs⟩ := h.past k hk.1 hk.2
    have hsizes : ∀ m ∈ fs, m.2.length ≤ 2 ^ 30 := by
      intro m hm
      cases hp : is_pong m with
      | true => exact hpongs m hm hp
      | false =>
        refine h.sizes k m ?_
        rw [← hqueued, List.mem_filter]
        exact ⟨hm, by simp [hp]⟩
    have hprefix := server_frames_prefix (ws_request_pos url nonce') (ws_request_whole hurl nonce') hsizes hwire
    rw [← hqueued, ← texts_sent]
    exact texts_prefix hprefix
  · rw [(h.future k (by omega)).1]
    exact List.nil_prefix

/-- However the client is used and whatever the network does: on each connection the server reads texts that were
queued on it, each once and in order, up to some point; and the texts that are queued at all are those for which
`send_text` has returned true. -/
theorem texts_read (random : Nat → Nat → Block 4) {url : Bytes} (hurl : ∀ c ∈ url, 32 ≤ c) (nonce : Block 16)
    (answer : ConnectAnswer) (steps : List ClientStep) (hsize : ∀ msg, .send_text msg ∈ steps → msg.length ≤ 2 ^ 30) :
    let w := (init random url nonce answer).1
    let outs := (init random url nonce answer).2 ++ run_outs random w steps
    (∀ k, texts (server_frames (wire k outs)) <+: texts (queued k outs)) ∧
      outs.filterMap queued_text = (trace (step random) w steps).filterMap accepted := by
  intro w outs
  have hst : Stories random url (final (step random) w steps) outs :=
    run_stories steps hsize (init_holds random url nonce answer) (init_stories nonce answer)
  refine ⟨stories_texts hst hurl, ?_⟩
  · have hidle : Holds { m_server_url := url } := .idle rfl rfl rfl
    have hinit : (init random url nonce answer).2.filterMap queued_text = [] :=
      does_accepted ((@on_timer_does random) hidle nonce answer)
    rw [List.filterMap_append, hinit, List.nil_append]
    exact run_accepted random steps (init_holds random url nonce answer)

theorem texts_read_hello :
    let steps : List ClientStep := [.turn 1 { read := some (.got (ascii "HTTP/1.1 101 OK\r\n\r\n")) },
      .send_text (ascii "hello"), .turn 1 { write := some (.wrote 300) }]
    let w := (init (fun _ _ => .zeros 4) (ascii "ws://127.0.0.1:80/rtc_signal") (.zeros 16) (.address (.connected 3))).1
    let outs := (init (fun _ _ => .zeros 4) (ascii "ws://127.0.0.1:80/rtc_signal") (.zeros 16)
      (.address (.connected 3))).2 ++ run_outs (fun _ _ => .zeros 4) w steps
    (∀ k, texts (server_frames (wire k outs)) <+: texts (queued k outs)) ∧
      outs.filterMap queued_text = (trace (step fun _ _ => .zeros 4) w steps).filterMap accepted :=
  texts_read (fun _ _ => .zeros 4) (by decide +kernel) (.zeros 16) (.address (.connected 3)) _ (by
    intro msg hm
    simp only [List.mem_cons, reduceCtorEq, ClientStep.send_text.injEq, List.not_mem_nil, or_false, false_or] at hm
    rw [hm]
    decide +kernel)

end WSClientState

end RtcClient
