import RtcClient.Websocket.Connection
/-!
# What a peer says and what the connection makes of it

A peer sends messages, whole or in fragments, and control frames, also between the
fragments of a message. Each message makes one event, with all its bytes, and each ping
is answered (`items_read`).
-/

namespace RtcClient

open Lib

/-! ## What a peer may send -/

/-- A payload and the mask it is sent with, if any. -/
structure Fragment where
  mask : Option (Block 4)
  payload : Bytes

def Fragment.frame (f : Fragment) (flags : UInt8) : WsFrame := ⟨flags, f.mask, f.payload⟩

/-- What may come between the first and the last fragment of a message. -/
inductive Inner where
  | control (ping : Bool) (f : Fragment)
  | fragment (f : Fragment)

inductive WsItem where
  | control (ping : Bool) (f : Fragment)
  | message (binary : Bool) (f : Fragment)
  | fragmented (binary : Bool) (first : Fragment) (inner : List Inner) (last : Fragment)

def control_op (ping : Bool) : UInt8 := if ping then WEBSOCKET_OP_PING else WEBSOCKET_OP_PONG

def message_op (binary : Bool) : UInt8 := if binary then WEBSOCKET_OP_BINARY else WEBSOCKET_OP_TEXT

theorem control_bits (ping : Bool) :
    (control_op ping ||| 128) &&& 128 ≠ 0 ∧ (control_op ping ||| 128) &&& 15 = control_op ping ∧
      (control_op ping ||| 128) &&& 15 ≠ 0 := by
  cases ping <;> decide

theorem message_bits (binary : Bool) :
    (message_op binary ||| 128) &&& 128 ≠ 0 ∧ (message_op binary ||| 128) &&& 15 = message_op binary ∧
      message_op binary &&& 128 = 0 ∧ message_op binary &&& 15 = message_op binary ∧ message_op binary ≠ 0 := by
  cases binary <;> decide

theorem continue_bits :
    WEBSOCKET_OP_CONTINUE &&& 15 = WEBSOCKET_OP_CONTINUE ∧ WEBSOCKET_OP_CONTINUE &&& 128 = 0 ∧
      (WEBSOCKET_OP_CONTINUE ||| 128) &&& 15 = WEBSOCKET_OP_CONTINUE ∧
      (WEBSOCKET_OP_CONTINUE ||| 128) &&& 128 ≠ 0 := by decide

theorem message_op_cases (binary : Bool) :
    message_op binary = WEBSOCKET_OP_TEXT ∨ message_op binary = WEBSOCKET_OP_BINARY := by
  cases binary
  · exact .inl rfl
  · exact .inr rfl

namespace Inner

def frame : Inner → WsFrame
  | .control ping f => f.frame (control_op ping ||| 128)
  | .fragment f => f.frame WEBSOCKET_OP_CONTINUE

/-- The part of the message. -/
def part : Inner → Bytes
  | .control _ _ => []
  | .fragment f => f.payload

def ping : Inner → Option Bytes
  | .control true f => some f.payload
  | _ => none

end Inner

namespace WsItem

def frames : WsItem → List WsFrame
  | .control ping f => [f.frame (control_op ping ||| 128)]
  | .message binary f => [f.frame (message_op binary ||| 128)]
  | .fragmented binary first inner last =>
    first.frame (message_op binary) :: (inner.map Inner.frame ++ [last.frame (WEBSOCKET_OP_CONTINUE ||| 128)])

/-- The payloads of the pings. -/
def pings : WsItem → List Bytes
  | .control true f => [f.payload]
  | .control false _ => []
  | .message _ _ => []
  | .fragmented _ _ inner _ => inner.filterMap Inner.ping

/-- The event a control frame or a fragment that continues a message makes. -/
def ctl (f : WsFrame) : WsEvent := .wsCtl f.flags f.payload

def events : WsItem → List WsEvent
  | .control ping f => [ctl (f.frame (control_op ping ||| 128))]
  | .message binary f => [.wsMsg (message_op binary ||| 128) f.payload f.payload.length]
  | .fragmented binary first inner last =>
    let whole := first.payload ++ inner.flatMap Inner.part ++ last.payload
    inner.map (fun i => ctl i.frame) ++
      [ctl (last.frame (WEBSOCKET_OP_CONTINUE ||| 128)), .wsMsg (message_op binary) whole whole.length]

end WsItem

/-! ## What is sent -/

namespace MgConnection

variable (random : Nat → Block 4)

/-- The frame `mg_ws_send` makes. -/
def sent_frame (c : MgConnection) (payload : Bytes) (op : UInt8) : WsFrame :=
  ⟨op ||| 128, if c.is_client then some (random c.randoms) else none, payload⟩

/-- The payload behind a mask is masked with it. -/
theorem mg_ws_mask_eq {c : MgConnection} (hc : c.is_client = true) {before mask data : Bytes} (hmask : mask.length = 4)
    (hsend : c.send = before ++ (mask ++ data)) :
    c.mg_ws_mask data.length = { c with send := before ++ (mask ++ ws_xor mask data) } := by
  have hp : c.send.length - data.length = (before ++ mask).length := by
    rw [hsend, ← List.append_assoc, List.length_append, Nat.add_sub_cancel]
  have hp4 : (before ++ mask).length - 4 = before.length := by
    rw [List.length_append, hmask, Nat.add_sub_cancel]
  unfold mg_ws_mask
  rw [if_pos hc]
  simp only [hp, hp4]
  rw [hsend, List.drop_left, ← hmask, List.take_left, ← List.append_assoc, List.take_left, List.drop_left,
    List.append_assoc]

theorem mg_ws_send_frame (c : MgConnection) (payload : Bytes) (op : UInt8) :
    c.mg_ws_send random payload op =
      ({ c with
          send := c.send ++ (c.sent_frame random payload op).bytes
          randoms := if c.is_client then c.randoms + 1 else c.randoms },
        (c.sent_frame random payload op).bytes.length) := by
  have hdr := mkhdr_frame payload op c.is_client (random c.randoms)
  have hlength : ∀ f : WsFrame, (f.head ++ f.key).length + f.payload.length = f.bytes.length := by
    intro f
    rw [WsFrame.bytes, List.length_append, List.length_append, List.length_append, f.data_length, Nat.add_assoc]
  unfold mg_ws_send
  rw [hdr]
  refine Prod.ext ?_ (hlength (c.sent_frame random payload op))
  cases hc : c.is_client with
  | true =>
    have hmask := mg_ws_mask_eq (c := { c with
        send := c.send ++ ((c.sent_frame random payload op).head ++ (c.sent_frame random payload op).key) ++ payload
        randoms := c.randoms + 1 }) hc (random c.randoms).size
      (show _ = (c.send ++ (c.sent_frame random payload op).head) ++ (_ ++ payload) by simp [sent_frame, hc, WsFrame.key])
    simp only [sent_frame, hc, if_true] at hmask ⊢
    simp only [hmask]
    simp [WsFrame.bytes, WsFrame.key, WsFrame.data]
  | false =>
    simp only [mg_ws_mask, sent_frame, hc]
    simp [WsFrame.bytes, WsFrame.key, WsFrame.data]

/-- The frames of some messages, each with its op, from the `k`-th mask on. -/
def client_frames (k : Nat) : List (UInt8 × Bytes) → List WsFrame
  | [] => []
  | (op, payload) :: msgs => ⟨op ||| 128, some (random k), payload⟩ :: client_frames (k + 1) msgs

/-- Messages are sent one after the other. -/
def send_all (c : MgConnection) (msgs : List (UInt8 × Bytes)) : MgConnection :=
  msgs.foldl (fun c m => (c.mg_ws_send random m.2 m.1).1) c

/-- What a client sends are the frames of its messages. -/
theorem send_all_frames (msgs : List (UInt8 × Bytes)) :
    ∀ {c : MgConnection}, c.is_client = true →
      c.send_all random msgs =
        { c with
          send := c.send ++ (client_frames random c.randoms msgs).flatMap WsFrame.bytes
          randoms := c.randoms + msgs.length } := by
  induction msgs with
  | nil => intro c _; simp [send_all, client_frames]
  | cons m msgs ih =>
    intro c hc
    have hrest := ih (c := (c.mg_ws_send random m.2 m.1).1) (by rw [mg_ws_send_frame]; exact hc)
    rw [send_all, List.foldl_cons, ← send_all, hrest, mg_ws_send_frame]
    simp only [hc, if_true, sent_frame, client_frames, List.flatMap_cons, List.append_assoc, List.length_cons,
      Nat.add_assoc, Nat.add_comm 1]

theorem client_frames_values (msgs : List (UInt8 × Bytes)) :
    ∀ k, (client_frames random k msgs).map (fun f => (f.flags, f.payload)) = msgs.map (fun m => (m.1 ||| 128, m.2)) := by
  induction msgs with
  | nil => intro k; rfl
  | cons m msgs ih => intro k; rw [client_frames, List.map_cons, ih, List.map_cons]

/-- The peer reads the messages of a client. -/
theorem split_client_frames (k : Nat) {msgs : List (UInt8 × Bytes)} (hsize : ∀ m ∈ msgs, m.2.length ≤ 2 ^ 30) :
    ws_framing.split ((client_frames random k msgs).flatMap WsFrame.bytes) =
      (msgs.map (fun m => (m.1 ||| 128, m.2)), []) := by
  have hframes : ∀ f ∈ client_frames random k msgs, f.payload.length ≤ 2 ^ 30 := by
    intro f hf
    have hmem := List.mem_map_of_mem (f := fun f : WsFrame => (f.flags, f.payload)) hf
    rw [client_frames_values] at hmem
    obtain ⟨m, hm, he⟩ := List.mem_map.1 hmem
    have hpayload : m.2 = f.payload := congrArg Prod.snd he
    rw [← hpayload]
    exact hsize m hm
  have hsplit := ws_framing.split_encoded WsFrame.bytes (fun f => (f.flags, f.payload))
    (fun f hf more => f.next_bytes (hframes f hf) more) (show ws_framing.next [] = none from rfl)
  rw [List.append_nil, client_frames_values] at hsplit
  exact hsplit

/-! ## One item -/

/-- The connection with a collected message in front of its receive buffer. -/
def holding (c : MgConnection) (acc : Bytes) : MgConnection := { c with recv := acc, ofs := acc.length }

/-- The pings are answered. -/
def answer (c : MgConnection) (pings : List Bytes) : MgConnection :=
  c.send_all random (pings.map (fun p => (WEBSOCKET_OP_PONG, p)))

theorem answer_append (c : MgConnection) (ps qs : List Bytes) :
    c.answer random (ps ++ qs) = (c.answer random ps).answer random qs := by
  rw [answer, List.map_append, send_all, List.foldl_append]
  rfl

variable {random}

theorem mg_ws_send_holding (c : MgConnection) (acc payload : Bytes) (op : UInt8) :
    ((c.holding acc).mg_ws_send random payload op).1 = ((c.mg_ws_send random payload op).1).holding acc := by
  rw [mg_ws_send_frame, mg_ws_send_frame]
  rfl

section
variable {c : MgConnection} {flags : UInt8} {s : Bytes}

theorem ws_switch_continue (h : flags &&& 15 = WEBSOCKET_OP_CONTINUE) :
    c.ws_switch random flags s = (c, [.wsCtl flags s]) := by
  rw [ws_switch, h, if_pos rfl]

theorem ws_switch_ping (h : flags &&& 15 = WEBSOCKET_OP_PING) :
    c.ws_switch random flags s = ((c.mg_ws_send random s WEBSOCKET_OP_PONG).1, [.wsCtl flags s]) := by
  rw [ws_switch, h, if_neg (by decide), if_pos rfl]

theorem ws_switch_pong (h : flags &&& 15 = WEBSOCKET_OP_PONG) :
    c.ws_switch random flags s = (c, [.wsCtl flags s]) := by
  rw [ws_switch, h, if_neg (by decide), if_neg (by decide), if_pos rfl]

theorem ws_switch_message (h : flags &&& 15 = WEBSOCKET_OP_TEXT ∨ flags &&& 15 = WEBSOCKET_OP_BINARY) :
    c.ws_switch random flags s = (c, if flags &&& 128 ≠ 0 then [.wsMsg flags s s.length] else []) := by
  have hother : ∀ op : UInt8, op = WEBSOCKET_OP_TEXT ∨ op = WEBSOCKET_OP_BINARY →
      op ≠ WEBSOCKET_OP_CONTINUE ∧ op ≠ WEBSOCKET_OP_PING ∧ op ≠ WEBSOCKET_OP_PONG := by
    rintro op (rfl | rfl) <;> decide
  obtain ⟨h0, h9, h10⟩ := hother _ h
  rw [ws_switch, if_neg h0, if_neg h9, if_neg h10, if_pos h]

end

/-- What a frame does that does not end a message in fragments. -/
theorem ws_take_holding (c : MgConnection) {flags : UInt8} {s acc acc' : Bytes} {c' : MgConnection}
    {es : List WsEvent} (hswitch : (c.holding acc).ws_switch random flags s = (c'.holding acc, es))
    (hjoin : ws_join acc (flags, s) = (acc', none)) :
    Joins (c.holding acc) (flags, s) ∧ ws_take random [] (c.holding acc) (flags, s) = (c'.holding acc', es) := by
  refine ⟨?_, ?_⟩
  · have hnone : (ws_join (c.holding acc).recv (flags, s)).2 = none := congrArg Prod.snd hjoin
    rw [Joins, hnone]
    simp
  · have hrecv : (c.holding acc).recv = acc := rfl
    rw [ws_take, hswitch, hrecv, hjoin]
    simp only [Option.toList_none, List.map_nil, List.append_nil]
    rfl

section
variable {flags : UInt8}

/-- A frame that is not a fragment leaves the collected message alone. -/
theorem ws_join_whole (hfinal : flags &&& 128 ≠ 0) (hop : flags &&& 15 ≠ 0) (acc s : Bytes) :
    ws_join acc (flags, s) = (acc, none) := by
  rw [ws_join, if_pos hfinal, if_pos hop]

theorem ws_join_first (hfinal : flags &&& 128 = 0) (hop : flags &&& 15 ≠ 0) (acc s : Bytes) :
    ws_join acc (flags, s) = (acc ++ flags :: s, none) := by
  rw [ws_join, if_neg (not_not.2 hfinal), if_pos hop]

theorem ws_join_more (hfinal : flags &&& 128 = 0) (hop : flags &&& 15 = 0) (acc s : Bytes) :
    ws_join acc (flags, s) = (acc ++ s, none) := by
  rw [ws_join, if_neg (not_not.2 hfinal), if_neg (not_not.2 hop)]

theorem ws_join_last (hfinal : flags &&& 128 ≠ 0) (hop : flags &&& 15 = 0) (acc s : Bytes) :
    ws_join acc (flags, s) = ([], some (acc ++ s)) := by
  rw [ws_join, if_pos hfinal, if_neg (not_not.2 hop)]

end

/-- A frame inside a message. -/
theorem inner_taken (c : MgConnection) (acc : Bytes) (i : Inner) :
    Joins (c.holding acc) (i.frame.flags, i.frame.payload) ∧
      ws_take random [] (c.holding acc) (i.frame.flags, i.frame.payload) =
        ((c.answer random i.ping.toList).holding (acc ++ i.part), [WsItem.ctl i.frame]) := by
  rcases i with ⟨ping, f⟩ | f
  · obtain ⟨hfinal, hop, hne⟩ := control_bits ping
    rw [Inner.part, List.append_nil]
    cases ping with
    | true =>
      refine ws_take_holding c ((ws_switch_ping hop).trans ?_) (ws_join_whole hfinal hne acc f.payload)
      exact Prod.ext (mg_ws_send_holding c acc f.payload WEBSOCKET_OP_PONG) rfl
    | false => exact ws_take_holding c (ws_switch_pong hop) (ws_join_whole hfinal hne acc f.payload)
  · obtain ⟨hop, hfinal, -⟩ := continue_bits
    exact ws_take_holding c (ws_switch_continue hop) (ws_join_more hfinal hop acc f.payload)

/-- The flags and payloads of frames. -/
def values (fs : List WsFrame) : List (UInt8 × Bytes) := fs.map (fun f => (f.flags, f.payload))

/-- Frames that are taken one after the other leave a connection that holds `acc'`. -/
structure Taken (random : Nat → Block 4) (c : MgConnection) (acc : Bytes) (fs : List WsFrame) (c' : MgConnection)
    (acc' : Bytes) (es : List WsEvent) : Prop where
  joins : Along (ws_take random []) Joins (c.holding acc) (values fs)
  final : final (ws_take random []) (c.holding acc) (values fs) = c'.holding acc'
  events : (trace (ws_take random []) (c.holding acc) (values fs)).flatMap (·.2) = es

theorem Taken.nil (c : MgConnection) (acc : Bytes) : Taken random c acc [] c acc [] := ⟨trivial, rfl, rfl⟩

theorem Taken.append {c c' c'' : MgConnection} {acc acc' acc'' : Bytes} {fs gs : List WsFrame} {es es' : List WsEvent}
    (h : Taken random c acc fs c' acc' es) (h' : Taken random c' acc' gs c'' acc'' es') :
    Taken random c acc (fs ++ gs) c'' acc'' (es ++ es') where
  joins := by
    rw [values, List.map_append, along_append]
    exact ⟨h.joins, by rw [← values, h.final]; exact h'.joins⟩
  final := by
    rw [values, List.map_append, final_append, ← values, h.final]
    exact h'.final
  events := by
    rw [values, List.map_append, trace_append, List.flatMap_append, ← values, h.final, h.events]
    exact congrArg (es ++ ·) h'.events

theorem Taken.single {c c' : MgConnection} {acc acc' : Bytes} {f : WsFrame} {es : List WsEvent}
    (h : Joins (c.holding acc) (f.flags, f.payload) ∧
      ws_take random [] (c.holding acc) (f.flags, f.payload) = (c'.holding acc', es)) :
    Taken random c acc [f] c' acc' es where
  joins := ⟨h.1, trivial⟩
  final := congrArg Prod.fst h.2
  events := by
    have hes := congrArg Prod.snd h.2
    simpa [values] using hes

theorem inners_taken (inner : List Inner) :
    ∀ (c : MgConnection) (acc : Bytes), Taken random c acc (inner.map Inner.frame)
      (c.answer random (inner.filterMap Inner.ping)) (acc ++ inner.flatMap Inner.part)
      (inner.map (fun i => WsItem.ctl i.frame)) := by
  induction inner with
  | nil =>
    intro c acc
    rw [List.flatMap_nil, List.append_nil]
    exact .nil c acc
  | cons i inner ih =>
    intro c acc
    have h := (Taken.single (inner_taken c acc i)).append (ih (c.answer random i.ping.toList) (acc ++ i.part))
    have hpings : (i :: inner).filterMap Inner.ping = i.ping.toList ++ inner.filterMap Inner.ping := by
      cases hp : i.ping <;> simp [hp]
    rw [hpings, answer_append, List.flatMap_cons, ← List.append_assoc]
    exact h

/-- The last fragment gives the message out. -/
theorem last_taken (c : MgConnection) (flags : UInt8) (data : Bytes) (last : Fragment) :
    Joins (c.holding (flags :: data)) (WEBSOCKET_OP_CONTINUE ||| 128, last.payload) ∧
      ws_take random [] (c.holding (flags :: data)) (WEBSOCKET_OP_CONTINUE ||| 128, last.payload) =
        (c.holding [], [.wsCtl (WEBSOCKET_OP_CONTINUE ||| 128) last.payload,
          .wsMsg flags (data ++ last.payload) (data ++ last.payload).length]) := by
  obtain ⟨-, -, hop, hfinal⟩ := continue_bits
  have hjoin := ws_join_last hfinal hop (flags :: data) last.payload
  have hrecv : (c.holding (flags :: data)).recv = flags :: data := rfl
  refine ⟨?_, ?_⟩
  · have hwhole := congrArg Prod.snd hjoin
    exact fun h => absurd (hwhole.symm.trans h) (by simp)
  · rw [ws_take, ws_switch_continue hop, hrecv, hjoin]
    simp only [Option.toList_some, List.map_cons, List.map_nil, List.cons_append, joined_cons]
    rfl

/-- Each item leaves nothing behind but the answers to its pings, and makes its events. -/
theorem item_taken (c : MgConnection) (i : WsItem) :
    Taken random c [] i.frames (c.answer random i.pings) [] i.events := by
  rcases i with ⟨ping, f⟩ | ⟨binary, f⟩ | ⟨binary, first, inner, last⟩
  · have h := Taken.single ((@inner_taken random) c [] (.control ping f))
    cases ping <;> exact h
  · obtain ⟨hfinal, hop, -, -, hne⟩ := message_bits binary
    have hswitch := (@ws_switch_message random (c.holding []) _ f.payload)
      (hop.symm ▸ message_op_cases binary)
    rw [if_pos hfinal] at hswitch
    exact .single (ws_take_holding c hswitch (ws_join_whole hfinal (hop.symm ▸ hne) [] f.payload))
  · obtain ⟨-, -, hfinal, hop, hne⟩ := message_bits binary
    have hswitch := (@ws_switch_message random (c.holding []) _ first.payload)
      (hop.symm ▸ message_op_cases binary)
    rw [if_neg (not_not.2 hfinal)] at hswitch
    have hfirst : Taken random c [] [first.frame (message_op binary)] c (message_op binary :: first.payload) [] :=
      .single (ws_take_holding c hswitch (ws_join_first hfinal (hop.symm ▸ hne) [] first.payload))
    have hinner := (@inners_taken random) inner c (message_op binary :: first.payload)
    have hlast : Taken random (c.answer random (inner.filterMap Inner.ping))
        (message_op binary :: first.payload ++ inner.flatMap Inner.part)
        [last.frame (WEBSOCKET_OP_CONTINUE ||| 128)] (c.answer random (inner.filterMap Inner.ping)) []
        [WsItem.ctl (last.frame (WEBSOCKET_OP_CONTINUE ||| 128)),
          .wsMsg (message_op binary) (first.payload ++ inner.flatMap Inner.part ++ last.payload)
            (first.payload ++ inner.flatMap Inner.part ++ last.payload).length] := by
      exact .single (last_taken _ _ _ last)
    exact hfirst.append (hinner.append hlast)

theorem items_taken (items : List WsItem) :
    ∀ c : MgConnection, Taken random c [] (items.flatMap WsItem.frames) (c.answer random (items.flatMap WsItem.pings)) []
      (items.flatMap WsItem.events) := by
  induction items with
  | nil => intro c; exact .nil c []
  | cons i items ih =>
    intro c
    rw [List.flatMap_cons, List.flatMap_cons, List.flatMap_cons, answer_append]
    exact (item_taken c i).append (ih _)

/-! ## The conversation -/

/-- Frames of at most 2^30 bytes are found one after the other. -/
theorem split_frames {fs : List WsFrame} (hsize : ∀ f ∈ fs, f.payload.length ≤ 2 ^ 30) {rest : Bytes}
    (hrest : ws_framing.next rest = none) :
    ws_framing.split (fs.flatMap WsFrame.bytes ++ rest) = (values fs, rest) :=
  ws_framing.split_encoded WsFrame.bytes (fun f => (f.flags, f.payload))
    (fun f hf more => f.next_bytes (hsize f hf) more) hrest

/-- However the frames of a conversation are cut into reads, every item makes its events, in order, and every ping is
answered. -/
theorem items_read (random : Nat → Block 4) {c : MgConnection} {rest : Bytes} (hrecv : c.recv = []) (hofs : c.ofs = 0)
    (items : List WsItem) (hsize : ∀ f ∈ items.flatMap WsItem.frames, f.payload.length ≤ 2 ^ 30)
    (hrest : ws_framing.next rest = none) (chunks : List Bytes)
    (hchunks : chunks.flatten = (items.flatMap WsItem.frames).flatMap WsFrame.bytes ++ rest) :
    ws_events random c chunks = items.flatMap WsItem.events ∧
      final (ws_read random) c chunks = { c.answer random (items.flatMap WsItem.pings) with recv := rest, ofs := 0 } := by
  have htaken := (@items_taken random) items c
  have hs : Settled c [] [] := ⟨hrecv, hofs, rfl⟩
  have hjoins := htaken.joins
  have hfinal := htaken.final
  have hevents := htaken.events
  have hback : ({ c with recv := [] } : MgConnection) = c.holding [] := by rw [holding, List.length_nil, ← hofs]
  have hsplit : ws_framing.split ([] ++ chunks.flatten) = (values (items.flatMap WsItem.frames), rest) := by
    rw [List.nil_append, hchunks, split_frames hsize hrest]
  obtain ⟨hread, -, hes⟩ := (@ws_reads_frames random) chunks hs (by rw [hsplit, hback]; exact hjoins)
  rw [hsplit] at hread hes
  simp only [frames_taken, hback, hfinal, hevents] at hread hes
  refine ⟨hes, hread.trans ?_⟩
  rfl

end MgConnection

end RtcClient
