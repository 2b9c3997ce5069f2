import Mathlib.Data.List.GetD
import RtcClient.Lib.Runs
import RtcClient.Websocket.Frame
/-!
# A WebSocket connection

`mg_ws_send` queues a frame; `mg_ws_cb` takes the frames out of what has been
received, makes the events and answers pings. A message in fragments is put
together in front of the receive buffer: the flags of its first frame, then the
payloads, up to the offset kept in `pfn_data`.

What `mg_ws_cb` does depends on the frames only (`ws_loop_frames`), so it does not
depend on how the stream is cut into reads.
-/

namespace RtcClient

open Lib

def WEBSOCKET_OP_CONTINUE : UInt8 := 0
def WEBSOCKET_OP_TEXT : UInt8 := 1
def WEBSOCKET_OP_BINARY : UInt8 := 2
def WEBSOCKET_OP_CLOSE : UInt8 := 8
def WEBSOCKET_OP_PING : UInt8 := 9
def WEBSOCKET_OP_PONG : UInt8 := 10

/-- What a connection tells its handler. The data of a message is a pointer and a length: `data` is what the
receive buffer has there, `len` is the length that is given. -/
inductive WsEvent where
  | wsOpen
  | wsMsg (flags : UInt8) (data : Bytes) (len : Nat)
  | wsCtl (flags : UInt8) (data : Bytes)
  | error (text : String)
  | close
deriving DecidableEq, Repr

/-- `struct mg_connection`. `ofs` is the offset in `pfn_data`; `randoms` counts the calls of `mg_random`. -/
structure MgConnection where
  is_client : Bool := true
  recv : Bytes := []
  send : Bytes := []
  ofs : Nat := 0
  is_websocket : Bool := false
  is_closing : Bool := false
  randoms : Nat := 0
deriving DecidableEq, Repr

/-- `mg_iobuf_del`. -/
def mg_iobuf_del (io : Bytes) (ofs len : Nat) : Bytes := io.take ofs ++ io.drop (ofs + len)

namespace MgConnection

/-- `mg_ws_mask`: the mask stands in front of the last `len` bytes. -/
def mg_ws_mask (c : MgConnection) (len : Nat) : MgConnection :=
  if c.is_client then
    let p := c.send.length - len
    { c with send := c.send.take p ++ ws_xor ((c.send.drop (p - 4)).take 4) (c.send.drop p) }
  else c

/-- `random i` is what the `i`-th call of `mg_random` gives. -/
def mg_ws_send (random : Nat → Block 4) (c : MgConnection) (buf : Bytes) (op : UInt8) : MgConnection × Nat :=
  let header := mkhdr buf.length op c.is_client (random c.randoms)
  let sent := { c with
    send := c.send ++ header ++ buf, randoms := if c.is_client then c.randoms + 1 else c.randoms }
  (sent.mg_ws_mask buf.length, header.length + buf.length)

/-- The cases on the op of a frame with payload `s`. -/
def ws_switch (random : Nat → Block 4) (c : MgConnection) (flags : UInt8) (s : Bytes) : MgConnection × List WsEvent :=
  let op := flags &&& 15
  if op = WEBSOCKET_OP_CONTINUE then (c, [.wsCtl flags s])
  else if op = WEBSOCKET_OP_PING then ((c.mg_ws_send random s WEBSOCKET_OP_PONG).1, [.wsCtl flags s])
  else if op = WEBSOCKET_OP_PONG then (c, [.wsCtl flags s])
  else if op = WEBSOCKET_OP_TEXT ∨ op = WEBSOCKET_OP_BINARY then
    (c, if flags &&& 128 ≠ 0 then [.wsMsg flags s s.length] else [])
  else if op = WEBSOCKET_OP_CLOSE then ({ c with is_closing := true }, [.wsCtl flags s])
  else ({ c with is_closing := true }, [.error ("unknown WS op " ++ toString op.toNat)])

/-- The frame at `ofs` is taken out: the payload of a fragment stays in front of the buffer, and the last
fragment gives the whole message out. -/
def ws_strip (c : MgConnection) (msg : WsMsg) : MgConnection × List WsEvent :=
  let final := msg.flags &&& 128
  let op := msg.flags &&& 15
  let len := msg.header_len + msg.data_len
  let c :=
    if final = 0 ∨ op = 0 then
      -- Of the first fragment the flags are kept as well.
      let (ofs, len, header_len) :=
        if op ≠ 0 then (c.ofs + 1, len - 1, msg.header_len - 1) else (c.ofs, len, msg.header_len)
      { c with recv := mg_iobuf_del c.recv ofs header_len, ofs := ofs + (len - header_len) }
    else { c with recv := mg_iobuf_del c.recv c.ofs len }
  if final ≠ 0 ∧ op = 0 then
    -- The length is a `size_t`: with an offset of 0 it wraps around.
    let n := if c.ofs = 0 then 2 ^ 64 - 1 else c.ofs - 1
    ({ c with recv := mg_iobuf_del c.recv 0 c.ofs, ofs := 0 },
      [.wsMsg (c.recv.getD 0 0) ((c.recv.drop 1).take n) n])
  else (c, [])

/-! ## Taking out one frame -/

/-- What a frame does to a message in fragments: the flags and payloads collected, and the whole message when its
last fragment has come. -/
def ws_join (acc : Bytes) (f : UInt8 × Bytes) : Bytes × Option Bytes :=
  if f.1 &&& 128 ≠ 0 then if f.1 &&& 15 ≠ 0 then (acc, none) else ([], some (acc ++ f.2))
  else if f.1 &&& 15 ≠ 0 then (acc ++ f.1 :: f.2, none)
  else (acc ++ f.2, none)

/-- The event for a message whose flags and payloads are `whole`, and behind which the buffer has `rest`. -/
def joined (whole rest : Bytes) : WsEvent :=
  let n := if whole.length = 0 then 2 ^ 64 - 1 else whole.length - 1
  .wsMsg ((whole ++ rest).getD 0 0) (((whole ++ rest).drop 1).take n) n

theorem joined_cons (flags : UInt8) (data rest : Bytes) :
    joined (flags :: data) rest = .wsMsg flags data data.length := by
  simp [joined]

/-- `ws_strip` in terms of the frame. `head` is its header. -/
theorem ws_strip_join (c : MgConnection) (acc head s rest : Bytes) {msg : WsMsg} (hhead : head.length = msg.header_len)
    (hflags : head.getD 0 0 = msg.flags) (h2 : 2 ≤ msg.header_len) (hs : s.length = msg.data_len) :
    ws_strip { c with recv := acc ++ (head ++ s ++ rest), ofs := acc.length } msg =
      ({ c with recv := (ws_join acc (msg.flags, s)).1 ++ rest, ofs := (ws_join acc (msg.flags, s)).1.length },
        (ws_join acc (msg.flags, s)).2.toList.map (joined · rest)) := by
  have hdel : mg_iobuf_del (acc ++ (head ++ s ++ rest)) acc.length (msg.header_len + msg.data_len) = acc ++ rest := by
    rw [mg_iobuf_del, List.take_left, ← List.drop_drop, List.drop_left, ← hhead, ← hs, ← List.length_append,
      List.drop_left]
  have hcont : mg_iobuf_del (acc ++ (head ++ s ++ rest)) acc.length msg.header_len = acc ++ s ++ rest := by
    rw [mg_iobuf_del, List.take_left, ← List.drop_drop, List.drop_left, ← hhead, List.append_assoc head, List.drop_left,
      List.append_assoc]
  have hfirst : mg_iobuf_del (acc ++ (head ++ s ++ rest)) (acc.length + 1) (msg.header_len - 1) =
      acc ++ msg.flags :: s ++ rest := by
    obtain ⟨b, tail, rfl⟩ : ∃ b tail, head = b :: tail := by
      cases head with
      | nil => rw [List.length_nil] at hhead; omega
      | cons b tail => exact ⟨b, tail, rfl⟩
    obtain rfl : b = msg.flags := hflags
    have hlen : acc.length + 1 + (msg.header_len - 1) = acc.length + (msg.flags :: tail).length := by omega
    rw [mg_iobuf_del, hlen, ← List.drop_drop, List.drop_left, List.append_assoc (msg.flags :: tail), List.drop_left]
    simp [List.take_append, List.take_of_length_le]
  unfold ws_strip ws_join
  by_cases hfinal : msg.flags &&& 128 = 0
  · by_cases hop : msg.flags &&& 15 = 0
    · simp only [hfinal, hop, hcont, true_or, if_true, if_false, ne_eq, not_true_eq_false, false_and]
      simp [hs]
    · simp only [hfinal, hop, hfirst, true_or, if_true, if_false, ne_eq, not_true_eq_false, not_false_eq_true, false_and]
      simp [hs]
      omega
  · by_cases hop : msg.flags &&& 15 = 0
    · simp only [hfinal, hop, hcont, or_true, if_true, if_false, ne_eq, not_true_eq_false, not_false_eq_true, true_and]
      have hofs : acc.length + (msg.header_len + msg.data_len - msg.header_len) = (acc ++ s).length := by
        rw [List.length_append, hs]
        omega
      simp only [hofs, joined]
      simp [mg_iobuf_del]
    · simp only [hfinal, hop, hdel, or_self, if_false, ne_eq, not_false_eq_true, and_false]
      simp

/-- The cases do not look at the receive buffer. -/
theorem ws_switch_recv (random : Nat → Block 4) (c : MgConnection) (recv : Bytes) (ofs : Nat) (flags : UInt8)
    (s : Bytes) :
    ws_switch random { c with recv := recv, ofs := ofs } flags s =
      ({ (c.ws_switch random flags s).1 with recv := recv, ofs := ofs }, (c.ws_switch random flags s).2) := by
  unfold ws_switch
  simp only
  split_ifs
  · rfl
  · simp only [mg_ws_send, mg_ws_mask]
    split_ifs <;> rfl
  all_goals rfl

/-- A frame in front of `rest`: the cases, then the joining. -/
def ws_take (random : Nat → Block 4) (rest : Bytes) (c : MgConnection) (f : UInt8 × Bytes) :
    MgConnection × List WsEvent :=
  let r := c.ws_switch random f.1 f.2
  ({ r.1 with recv := (ws_join c.recv f).1, ofs := (ws_join c.recv f).1.length },
    r.2 ++ (ws_join c.recv f).2.toList.map (joined · rest))

/-! ## The loop -/

/-- One turn of the loop of `mg_ws_cb`, if there is a frame. -/
def ws_turn (random : Nat → Block 4) (c : MgConnection) : Option (MgConnection × List WsEvent) :=
  let r := ws_process (c.recv.drop c.ofs)
  if r.1 = 0 then none
  else
    let c := { c with recv := c.recv.take c.ofs ++ r.2.1 }
    let s := (r.2.1.drop r.2.2.header_len).take r.2.2.data_len
    let switched := c.ws_switch random r.2.2.flags s
    let stripped := switched.1.ws_strip r.2.2
    some (stripped.1, switched.2 ++ stripped.2)

theorem ws_turn_none {random : Nat → Block 4} {c : MgConnection}
    (h : ws_framing.next (c.recv.drop c.ofs) = none) : c.ws_turn random = none := by
  have hnext : ws_next (c.recv.drop c.ofs) = none := h
  unfold ws_turn
  simp only [ws_next] at hnext
  split at hnext
  · rename_i h0
    exact if_pos h0
  · cases hnext

/-- A turn takes one frame. -/
theorem ws_turn_some {random : Nat → Block 4} {c : MgConnection} {acc l : Bytes} {f : UInt8 × Bytes} {k : Nat}
    (hrecv : c.recv = acc ++ l) (hofs : c.ofs = acc.length) (h : ws_framing.next l = some (f, k)) :
    c.ws_turn random =
      some ({ (ws_take random (l.drop k) { c with recv := acc } f).1 with
          recv := (ws_join acc f).1 ++ l.drop k },
        (ws_take random (l.drop k) { c with recv := acc } f).2) := by
  obtain ⟨msg, hmsg, h2, -, hk, hlen, rfl, hpayload, hprocess⟩ := ws_next_some h
  have hdrop : c.recv.drop c.ofs = l := by rw [hrecv, hofs, List.drop_left]
  have hhead : (l.take msg.header_len).length = msg.header_len := by
    rw [List.length_take]
    omega
  have hread : ((l.take msg.header_len ++ ws_payload l ++ l.drop k).drop msg.header_len).take msg.data_len =
      ws_payload l := by
    rw [List.append_assoc, List.drop_left' hhead, List.take_left' hpayload]
  have hflags : (l.take msg.header_len).getD 0 0 = msg.flags := by
    have hfirst : (l.take msg.header_len).getD 0 0 = l.getD 0 0 := by
      rw [List.getD_eq_getElem?_getD, List.getD_eq_getElem?_getD, List.getElem?_take_of_lt (by omega)]
    rw [hfirst, hmsg, ws_header_flags (by omega)]
  unfold ws_turn
  rw [hdrop, hprocess]
  simp only
  rw [if_neg (by omega), hread, hrecv, hofs, List.take_left, ws_switch_recv]
  have hstrip := ws_strip_join (c.ws_switch random msg.flags (ws_payload l)).1 acc (l.take msg.header_len) (ws_payload l)
    (l.drop k) hhead hflags h2 hpayload
  have hcommute := ws_switch_recv random c acc acc.length msg.flags (ws_payload l)
  simp only [hstrip, ws_take]
  rw [hcommute]

/-- A turn leaves less behind the offset. -/
theorem ws_turn_lt {random : Nat → Block 4} {c : MgConnection} {r : MgConnection × List WsEvent}
    (h : c.ws_turn random = some r) : r.1.recv.length - r.1.ofs < c.recv.length - c.ofs := by
  cases hnext : ws_framing.next (c.recv.drop c.ofs) with
  | none =>
    rw [ws_turn_none hnext] at h
    cases h
  | some fk =>
    obtain ⟨f, k⟩ := fk
    obtain ⟨hpos, hle⟩ := ws_framing.takes hnext
    rw [List.length_drop] at hle
    have hsplit : c.recv = c.recv.take c.ofs ++ c.recv.drop c.ofs := (List.take_append_drop _ _).symm
    have hofs : c.ofs = (c.recv.take c.ofs).length := by
      rw [List.length_take]
      omega
    rw [ws_turn_some hsplit hofs hnext] at h
    obtain rfl := Option.some.inj h
    simp only [ws_take, List.length_append, List.length_drop]
    omega

/-- The loop of `mg_ws_cb`. -/
def ws_loop (random : Nat → Block 4) (c : MgConnection) : MgConnection × List WsEvent :=
  match _h : c.ws_turn random with
  | none => (c, [])
  | some r => ((ws_loop random r.1).1, r.2 ++ (ws_loop random r.1).2)
termination_by c.recv.length - c.ofs
decreasing_by all_goals exact ws_turn_lt _h

theorem ws_loop_none {random : Nat → Block 4} {c : MgConnection} (h : c.ws_turn random = none) :
    c.ws_loop random = (c, []) := by
  rw [ws_loop]
  split
  · rfl
  · rename_i hs
    rw [h] at hs
    cases hs

theorem ws_loop_some {random : Nat → Block 4} {c : MgConnection} {r : MgConnection × List WsEvent}
    (h : c.ws_turn random = some r) :
    c.ws_loop random = ((ws_loop random r.1).1, r.2 ++ (ws_loop random r.1).2) := by
  rw [ws_loop]
  split
  · rename_i hs
    rw [h] at hs
    cases hs
  · rename_i r' hs
    rw [h] at hs
    rw [Option.some.inj hs]

/-- What has come of a stream: the collected part of a message, and the start of a frame. -/
structure Settled (c : MgConnection) (acc rest : Bytes) : Prop where
  recv : c.recv = acc ++ rest
  ofs : c.ofs = acc.length
  unfinished : ws_framing.next rest = none

/-- A last fragment ends a message of which at least the flags have come. -/
def Joins (c : MgConnection) (f : UInt8 × Bytes) : Prop := (ws_join c.recv f).2 ≠ some []

instance (c : MgConnection) (f : UInt8 × Bytes) : Decidable (Joins c f) := inferInstanceAs (Decidable (_ ≠ _))

/-- If it does, it does not matter what is behind it. -/
theorem ws_take_joins {random : Nat → Block 4} {c : MgConnection} {f : UInt8 × Bytes} (h : Joins c f) (rest : Bytes) :
    ws_take random rest c f = ws_take random [] c f := by
  have hjoined : (ws_join c.recv f).2.toList.map (joined · rest) = (ws_join c.recv f).2.toList.map (joined · []) := by
    unfold Joins at h
    cases hwhole : (ws_join c.recv f).2 with
    | none => rfl
    | some whole =>
      cases whole with
      | nil => exact absurd hwhole h
      | cons flags data => simp only [Option.toList_some, List.map_cons, List.map_nil, joined_cons]
  unfold ws_take
  rw [hjoined]

/-- The loop takes the frames of the stream, one after the other. -/
theorem ws_loop_frames (random : Nat → Block 4) (l : Bytes) :
    ∀ {c : MgConnection} {acc : Bytes}, c.recv = acc ++ l → c.ofs = acc.length →
      Along (ws_take random []) Joins { c with recv := acc } (ws_framing.split l).1 →
      ∃ c', c' = final (ws_take random []) { c with recv := acc } (ws_framing.split l).1 ∧ c'.ofs = c'.recv.length ∧
        c.ws_loop random = ({ c' with recv := c'.recv ++ (ws_framing.split l).2 },
          (trace (ws_take random []) { c with recv := acc } (ws_framing.split l).1).flatMap (·.2)) := by
  fun_induction ws_framing.split l with
  | case1 l h =>
    intro c acc hrecv hofs _
    have hdrop : c.recv.drop c.ofs = l := by rw [hrecv, hofs, List.drop_left]
    refine ⟨_, rfl, hofs, ?_⟩
    rw [ws_loop_none (ws_turn_none (by rw [hdrop]; exact h))]
    simp only [final_nil, trace_nil, List.flatMap_nil, ← hrecv]
  | case2 l f k h ih =>
    intro c acc hrecv hofs hjoins
    rw [ws_loop_some (ws_turn_some hrecv hofs h), ws_take_joins hjoins.1]
    obtain ⟨c', hc', hofs', hloop⟩ := @ih { (ws_take random [] { c with recv := acc } f).1 with
      recv := (ws_join acc f).1 ++ l.drop k } (ws_join acc f).1 rfl rfl hjoins.2
    refine ⟨c', hc', hofs', ?_⟩
    simp only [hloop]
    rfl

/-! ## Reads -/

/-- More of the stream is read. -/
def ws_read (random : Nat → Block 4) (c : MgConnection) (chunk : Bytes) : MgConnection × List WsEvent :=
  ws_loop random { c with recv := c.recv ++ chunk }

/-- The events of a run of reads. -/
def ws_events (random : Nat → Block 4) (c : MgConnection) (chunks : List Bytes) : List WsEvent :=
  (trace (ws_read random) c chunks).flatMap (·.2)

/-- The connection and the events when the frames are taken one after the other. `acc` is the message collected
before. -/
def frames_taken (random : Nat → Block 4) (c : MgConnection) (acc : Bytes) (fs : List (UInt8 × Bytes)) :
    MgConnection × List WsEvent :=
  (final (ws_take random []) { c with recv := acc } fs,
    (trace (ws_take random []) { c with recv := acc } fs).flatMap (·.2))

/-- Reads take the frames of the stream, however it is cut. -/
theorem ws_reads_frames {random : Nat → Block 4} (chunks : List Bytes) :
    ∀ {c : MgConnection} {acc rest : Bytes}, Settled c acc rest →
      Along (ws_take random []) Joins { c with recv := acc } (ws_framing.split (rest ++ chunks.flatten)).1 →
      let taken := frames_taken random c acc (ws_framing.split (rest ++ chunks.flatten)).1
      let left := (ws_framing.split (rest ++ chunks.flatten)).2
      final (ws_read random) c chunks = { taken.1 with recv := taken.1.recv ++ left } ∧
        taken.1.ofs = taken.1.recv.length ∧ ws_events random c chunks = taken.2 := by
  induction chunks with
  | nil =>
    intro c acc rest hs _
    rw [List.flatten_nil, List.append_nil, ws_framing.split_none hs.unfinished]
    refine ⟨?_, hs.ofs, rfl⟩
    simp only [frames_taken, final_nil, ← hs.recv]
  | cons chunk chunks ih =>
    intro c acc rest hs hjoins
    rw [List.flatten_cons, ← List.append_assoc, ws_framing.split_append] at hjoins ⊢
    simp only at hjoins ⊢
    rw [along_append] at hjoins
    obtain ⟨c', hc', hofs', hloop⟩ := @ws_loop_frames random (rest ++ chunk) { c with recv := c.recv ++ chunk } acc
      (by simp only [hs.recv, List.append_assoc]) hs.ofs hjoins.1
    have hread : ws_read random c chunk = ({ c' with recv := c'.recv ++ (ws_framing.split (rest ++ chunk)).2 },
        (trace (ws_take random []) { c with recv := acc } (ws_framing.split (rest ++ chunk)).1).flatMap (·.2)) := hloop
    have hs' : Settled (ws_read random c chunk).1 c'.recv (ws_framing.split (rest ++ chunk)).2 := by
      rw [hread]
      exact ⟨rfl, hofs', ws_framing.next_rest _⟩
    have hback : ({ (ws_read random c chunk).1 with recv := c'.recv } : MgConnection) =
        final (ws_take random []) { c with recv := acc } (ws_framing.split (rest ++ chunk)).1 := by
      rw [hread, ← hc']
    have hrest := ih hs' (by rw [hback]; exact hjoins.2)
    simp only [frames_taken, hback] at hrest ⊢
    obtain ⟨hfinal, hofs, hevents⟩ := hrest
    refine ⟨?_, ?_, ?_⟩
    · rw [final_cons, hfinal, final_append]
    · rw [final_append]
      exact hofs
    · rw [ws_events, trace_cons, List.flatMap_cons, hread, trace_append, List.flatMap_append]
      rw [ws_events, hread] at hevents
      exact congrArg (_ ++ ·) hevents

end MgConnection

end RtcClient
