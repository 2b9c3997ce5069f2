import RtcClient.Common.Utils
import RtcClient.Websocket.Conversation
/-!
# The handshake

A client connection waits for the head of an HTTP response. A head with the status
`101` opens it, and from then on it takes frames, as if it had been open before
(`cb_reads_accepted`).
-/

namespace RtcClient

open Lib

def isok (c : UInt8) : Bool := c = 10 || c = 13 || c ≥ 32

/-- The loop of `mg_http_get_request_len` from position `i` on. -/
def request_len_from (buf : Bytes) (i : Nat) : Bytes → Int
  | [] => 0
  | b :: rest =>
    if !isok b then -1
    else if (i > 0 ∧ b = 10 ∧ buf.getD (i - 1) 0 = 10) ∨
        (i > 3 ∧ b = 10 ∧ buf.getD (i - 1) 0 = 13 ∧ buf.getD (i - 2) 0 = 10) then i + 1
    else request_len_from buf (i + 1) rest

/-- The length of the head up to the first empty line, 0 if it has not come yet. -/
def mg_http_get_request_len (buf : Bytes) : Int := request_len_from buf 0 buf

namespace MgConnection

/-- `mg_ws_cb` when something has been read. -/
def mg_ws_cb (random : Nat → Block 4) (c : MgConnection) : MgConnection × List WsEvent :=
  if !c.is_websocket && c.is_client then
    let n := mg_http_get_request_len c.recv
    if n < 0 then ws_loop random { c with is_closing := true }
    else if n > 0 then
      if n < 15 ∨ (c.recv.drop 9).take 3 ≠ ascii "101" then
        ws_loop random { c with is_closing := true, recv := mg_iobuf_del c.recv 0 n.toNat }
      else
        let r := ws_loop random { c with is_websocket := true, recv := mg_iobuf_del c.recv 0 n.toNat }
        (r.1, .wsOpen :: r.2)
    else (c, [])
  else ws_loop random c

end MgConnection

/-! ## The head of the response -/

theorem request_len_from_append (more : Bytes) (l : Bytes) :
    ∀ (buf : Bytes) (i : Nat), buf.length = i + l.length → request_len_from buf i l ≠ 0 →
      request_len_from (buf ++ more) i (l ++ more) = request_len_from buf i l := by
  induction l with
  | nil => intro buf i _ h; exact absurd rfl h
  | cons b l ih =>
    intro buf i hlen h
    rw [List.length_cons] at hlen
    have hget : ∀ j < buf.length, (buf ++ more).getD j 0 = buf.getD j 0 := by
      intro j hj
      rw [List.getD_append _ _ _ _ hj]
    rw [request_len_from] at h
    rw [List.cons_append, request_len_from, request_len_from, hget (i - 1) (by omega), hget (i - 2) (by omega)]
    split_ifs at h ⊢
    · rfl
    · rfl
    · exact ih buf (i + 1) (by omega) h

/-- What the head says does not change when more comes. -/
theorem request_len_append {buf : Bytes} (h : mg_http_get_request_len buf ≠ 0) (more : Bytes) :
    mg_http_get_request_len (buf ++ more) = mg_http_get_request_len buf :=
  request_len_from_append more buf buf 0 (by omega) h

theorem request_len_from_le (l : Bytes) :
    ∀ (buf : Bytes) (i : Nat), request_len_from buf i l ≤ (i + l.length : Nat) := by
  induction l with
  | nil => intro buf i; exact Int.natCast_nonneg _
  | cons b l ih =>
    intro buf i
    have hrest := ih buf (i + 1)
    rw [request_len_from, List.length_cons]
    split_ifs
    · omega
    · omega
    · omega

theorem request_len_le (buf : Bytes) : mg_http_get_request_len buf ≤ buf.length := by
  have h := request_len_from_le buf buf 0
  rwa [Nat.zero_add] at h

/-- Of a head that ends with its last byte no part is a head. -/
theorem request_len_part {got more : Bytes} (hhead : mg_http_get_request_len (got ++ more) = (got ++ more).length)
    (hmore : more ≠ []) : mg_http_get_request_len got = 0 := by
  by_contra h
  have hle := request_len_le got
  have hpos := List.length_pos_iff.2 hmore
  rw [request_len_append h, List.length_append] at hhead
  omega

/-! ## What the loop leaves alone -/

namespace MgConnection

variable {random : Nat → Block 4}

/-- What no frame changes, and that closing is not taken back. -/
structure Keeps (c c' : MgConnection) : Prop where
  client : c'.is_client = c.is_client
  websocket : c'.is_websocket = c.is_websocket
  closing : c.is_closing = true → c'.is_closing = true

/-- Nothing that opens or closes. -/
def Quiet (es : List WsEvent) : Prop := ∀ e ∈ es, e ≠ .wsOpen ∧ e ≠ .close

theorem Quiet.append {es es' : List WsEvent} (h : Quiet es) (h' : Quiet es') : Quiet (es ++ es') := by
  intro e he
  rcases List.mem_append.1 he with hm | hm
  · exact h e hm
  · exact h' e hm

theorem Quiet.not_open {es : List WsEvent} (h : Quiet es) : .wsOpen ∉ es := fun hm => (h _ hm).1 rfl

theorem Keeps.refl (c : MgConnection) : Keeps c c := ⟨rfl, rfl, id⟩

theorem Keeps.trans {c c' c'' : MgConnection} (h : Keeps c c') (h' : Keeps c' c'') : Keeps c c'' :=
  ⟨h'.client.trans h.client, h'.websocket.trans h.websocket, fun hc => h'.closing (h.closing hc)⟩

theorem ws_switch_keeps (c : MgConnection) (flags : UInt8) (s : Bytes) :
    Keeps c (c.ws_switch random flags s).1 ∧ Quiet (c.ws_switch random flags s).2 := by
  unfold ws_switch
  simp only
  split_ifs
  · exact ⟨.refl c, by simp [Quiet]⟩
  · rw [mg_ws_send_frame]
    exact ⟨⟨rfl, rfl, id⟩, by simp [Quiet]⟩
  · exact ⟨.refl c, by simp [Quiet]⟩
  · exact ⟨.refl c, by simp [Quiet]⟩
  · exact ⟨.refl c, by simp [Quiet]⟩
  · exact ⟨⟨rfl, rfl, fun _ => rfl⟩, by simp [Quiet]⟩
  · exact ⟨⟨rfl, rfl, fun _ => rfl⟩, by simp [Quiet]⟩

theorem ws_strip_keeps (c : MgConnection) (msg : WsMsg) : Keeps c (c.ws_strip msg).1 ∧ Quiet (c.ws_strip msg).2 := by
  unfold ws_strip
  simp only
  split_ifs <;> exact ⟨⟨rfl, rfl, id⟩, by simp [Quiet]⟩

theorem ws_turn_keeps {c : MgConnection} {r : MgConnection × List WsEvent} (h : c.ws_turn random = some r) :
    Keeps c r.1 ∧ Quiet r.2 := by
  unfold ws_turn at h
  simp only at h
  split at h
  · cases h
  · obtain rfl := Option.some.inj h
    obtain ⟨hswitch, hquiet⟩ := (@ws_switch_keeps random)
      { c with recv := c.recv.take c.ofs ++ (ws_process (c.recv.drop c.ofs)).2.1 }
      (ws_process (c.recv.drop c.ofs)).2.2.flags
      (((ws_process (c.recv.drop c.ofs)).2.1.drop (ws_process (c.recv.drop c.ofs)).2.2.header_len).take
        (ws_process (c.recv.drop c.ofs)).2.2.data_len)
    obtain ⟨hstrip, hquiet'⟩ := ws_strip_keeps (ws_switch random
      { c with recv := c.recv.take c.ofs ++ (ws_process (c.recv.drop c.ofs)).2.1 }
      (ws_process (c.recv.drop c.ofs)).2.2.flags
      (((ws_process (c.recv.drop c.ofs)).2.1.drop (ws_process (c.recv.drop c.ofs)).2.2.header_len).take
        (ws_process (c.recv.drop c.ofs)).2.2.data_len)).1 (ws_process (c.recv.drop c.ofs)).2.2
    exact ⟨Keeps.trans ⟨hswitch.client, hswitch.websocket, hswitch.closing⟩ hstrip, hquiet.append hquiet'⟩

/-- The loop opens nothing. -/
theorem ws_loop_keeps (c : MgConnection) : Keeps c (c.ws_loop random).1 ∧ Quiet (c.ws_loop random).2 := by
  fun_induction ws_loop random c with
  | case1 c h => exact ⟨.refl c, by simp [Quiet]⟩
  | case2 c r h ih =>
    obtain ⟨hturn, hquiet⟩ := ws_turn_keeps h
    exact ⟨hturn.trans ih.1, hquiet.append ih.2⟩

/-! ## Reads -/

/-- `mg_ws_cb` after `chunk` has been read. -/
def cb_read (random : Nat → Block 4) (c : MgConnection) (chunk : Bytes) : MgConnection × List WsEvent :=
  mg_ws_cb random { c with recv := c.recv ++ chunk }

/-- An open connection only takes frames. -/
theorem cb_read_open {c : MgConnection} (h : c.is_websocket = true) (chunk : Bytes) :
    cb_read random c chunk = ws_read random c chunk := by
  simp [cb_read, mg_ws_cb, ws_read, h]

theorem cb_reads_open (chunks : List Bytes) :
    ∀ {c : MgConnection}, c.is_websocket = true →
      final (cb_read random) c chunks = final (ws_read random) c chunks ∧
        trace (cb_read random) c chunks = trace (ws_read random) c chunks := by
  induction chunks with
  | nil => intro c _; exact ⟨rfl, rfl⟩
  | cons chunk chunks ih =>
    intro c h
    have hnext : (ws_read random c chunk).1.is_websocket = true :=
      (ws_loop_keeps { c with recv := c.recv ++ chunk }).1.websocket.trans h
    obtain ⟨hfinal, htrace⟩ := ih hnext
    rw [final_cons, final_cons, trace_cons, trace_cons, cb_read_open h, hfinal, htrace]
    exact ⟨rfl, rfl⟩

/-- A connection that waits for the response, of which `got` has come. -/
structure Waiting (c : MgConnection) (got : Bytes) : Prop where
  client : c.is_client = true
  websocket : c.is_websocket = false
  closing : c.is_closing = false
  ofs : c.ofs = 0
  recv : c.recv = got

/-- A head that accepts the connection. -/
structure Accepts (head : Bytes) : Prop where
  whole : mg_http_get_request_len head = head.length
  long : 15 ≤ head.length
  status : (head.drop 9).take 3 = ascii "101"

theorem cb_read_waiting {c : MgConnection} {got : Bytes} (hc : Waiting c got) {chunk : Bytes}
    (h : mg_http_get_request_len (got ++ chunk) = 0) :
    cb_read random c chunk = ({ c with recv := got ++ chunk }, []) := by
  simp [cb_read, mg_ws_cb, hc.websocket, hc.client, hc.recv, h]

theorem cb_read_accepted {c : MgConnection} {got : Bytes} (hc : Waiting c got) {chunk head tail : Bytes}
    (hhead : Accepts head) (h : got ++ chunk = head ++ tail) :
    cb_read random c chunk =
      ((ws_read random { c with is_websocket := true, recv := [] } tail).1,
        .wsOpen :: (ws_read random { c with is_websocket := true, recv := [] } tail).2) := by
  have hlong := hhead.long
  have hn : mg_http_get_request_len (head ++ tail) = head.length := by
    rw [request_len_append (by rw [hhead.whole]; omega), hhead.whole]
  have hstatus : ((head ++ tail).drop 9).take 3 = ascii "101" := by
    rw [List.drop_append_of_le_length (by omega), List.take_append_of_le_length (by rw [List.length_drop]; omega),
      hhead.status]
  have hdel : mg_iobuf_del (head ++ tail) 0 head.length = tail := by simp [mg_iobuf_del]
  unfold cb_read mg_ws_cb
  simp only [hc.websocket, hc.client, hc.recv, h, hn, hstatus]
  rw [if_pos (by simp), if_neg (by omega), if_pos (by omega), if_neg (by simp; omega)]
  simp only [Int.toNat_natCast, hdel, ws_read, List.nil_append]

/-- After the head the connection is open and goes on as if it had been before. -/
theorem cb_reads_accepted {head stream : Bytes} (hhead : Accepts head) (chunks : List Bytes) :
    ∀ {c : MgConnection} {got : Bytes}, Waiting c got → got.length < head.length →
      got ++ chunks.flatten = head ++ stream →
      ∃ chunks' : List Bytes, chunks'.flatten = stream ∧
        final (cb_read random) c chunks =
          final (ws_read random) { c with is_websocket := true, recv := [] } chunks' ∧
        (trace (cb_read random) c chunks).flatMap (·.2) =
          .wsOpen :: ws_events random { c with is_websocket := true, recv := [] } chunks' := by
  induction chunks with
  | nil =>
    intro c got _ hlt hflat
    have hlen := congrArg List.length hflat
    simp only [List.flatten_nil, List.append_nil, List.length_append] at hlen
    omega
  | cons chunk chunks ih =>
    intro c got hc hlt hflat
    rw [List.flatten_cons, ← List.append_assoc] at hflat
    by_cases hshort : (got ++ chunk).length < head.length
    · -- The head has not come as a whole yet.
      obtain ⟨more, hmore⟩ : ∃ more, head = got ++ chunk ++ more := by
        have hprefix : got ++ chunk <+: head :=
          List.prefix_of_prefix_length_le ⟨_, hflat⟩ (List.prefix_append _ _) (Nat.le_of_lt hshort)
        obtain ⟨more, hm⟩ := hprefix
        exact ⟨more, hm.symm⟩
      have hne : more ≠ [] := by
        rintro rfl
        rw [hmore, List.append_nil] at hshort
        exact absurd hshort (Nat.lt_irrefl _)
      have hzero := request_len_part (by rw [← hmore]; exact hhead.whole) hne
      have hread := (@cb_read_waiting random) hc hzero
      obtain ⟨chunks', hstream, hfinal, hevents⟩ := ih (c := { c with recv := got ++ chunk })
        ⟨hc.client, hc.websocket, hc.closing, hc.ofs, rfl⟩ hshort hflat
      refine ⟨chunks', hstream, ?_, ?_⟩
      · rw [final_cons, hread]
        exact hfinal
      · rw [trace_cons, List.flatMap_cons, hread]
        exact hevents
    · obtain ⟨tail, htail⟩ : ∃ tail, got ++ chunk = head ++ tail := by
        have hprefix : head <+: got ++ chunk :=
          List.prefix_of_prefix_length_le ⟨_, hflat.symm⟩ (List.prefix_append _ _) (Nat.le_of_not_lt hshort)
        obtain ⟨tail, ht⟩ := hprefix
        exact ⟨tail, ht.symm⟩
      have hread := (@cb_read_accepted random) hc hhead htail
      have hopened : (ws_read random { c with is_websocket := true, recv := [] } tail).1.is_websocket = true :=
        (ws_loop_keeps _).1.websocket
      obtain ⟨hfinal, htrace⟩ := (@cb_reads_open random) chunks hopened
      refine ⟨tail :: chunks, ?_, ?_, ?_⟩
      · rw [htail, List.append_assoc] at hflat
        exact List.append_cancel_left hflat
      · rw [final_cons, hread]
        exact hfinal
      · rw [trace_cons, List.flatMap_cons, hread, htrace]
        rfl

end MgConnection

end RtcClient
