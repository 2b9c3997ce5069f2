import RtcClient.Websocket.Reception
/-!
# The length of a message

The handler gets a pointer and a length. The length is that of the message, unless the
last fragment of a message comes of which nothing has come before, not even the flags:
then it wraps around (`lengths_right_iff`).
-/

namespace RtcClient

open Lib

namespace MgConnection

variable {random : Nat → Block 4}

/-- The lengths of messages are those of their data. -/
def LengthsRight (es : List WsEvent) : Prop := ∀ flags data len, .wsMsg flags data len ∈ es → len = data.length

theorem lengthsRight_append {es es' : List WsEvent} :
    LengthsRight (es ++ es') ↔ LengthsRight es ∧ LengthsRight es' := by
  simp only [LengthsRight, List.mem_append, or_imp, forall_and]

theorem lengthsRight_quiet {es : List WsEvent} (h : ∀ flags data len, .wsMsg flags data len ∉ es) : LengthsRight es :=
  fun flags data len hmem => absurd hmem (h flags data len)

theorem ws_switch_lengths (c : MgConnection) (flags : UInt8) (s : Bytes) :
    LengthsRight (c.ws_switch random flags s).2 := by
  unfold ws_switch
  simp only
  split_ifs
  · exact lengthsRight_quiet (by simp)
  · exact lengthsRight_quiet (by simp)
  · exact lengthsRight_quiet (by simp)
  · rintro flags' data len hmem
    obtain ⟨rfl, rfl, rfl⟩ : flags' = flags ∧ data = s ∧ len = s.length := by simpa using hmem
    rfl
  · exact lengthsRight_quiet (by simp)
  · exact lengthsRight_quiet (by simp)
  · exact lengthsRight_quiet (by simp)

/-- The length wraps around if a message ends of which nothing has come. -/
theorem ws_take_lengths {c : MgConnection} {f : UInt8 × Bytes} {rest : Bytes} (hrest : rest.length < 2 ^ 64 - 1) :
    LengthsRight (ws_take random rest c f).2 ↔ Joins c f := by
  rw [ws_take]
  simp only [lengthsRight_append, iff_true_intro (ws_switch_lengths c f.1 f.2), true_and, Joins]
  cases hwhole : (ws_join c.recv f).2 with
  | none => exact iff_of_true (lengthsRight_quiet (by simp)) (by simp)
  | some whole =>
    cases whole with
    | nil =>
      refine iff_of_false (fun h => ?_) (by simp)
      have hlen := h _ _ _ (by simp only [Option.toList_some, List.map_cons, joined]; exact List.mem_cons_self)
      simp only [List.length_nil, if_true, List.nil_append, List.length_take, List.length_drop] at hlen
      omega
    | cons flags data =>
      refine iff_of_true ?_ (by simp)
      rintro flags' data' len hmem
      simp only [Option.toList_some, List.map_cons, List.map_nil, joined_cons, List.mem_singleton] at hmem
      cases hmem
      rfl

theorem ws_loop_lengths (random : Nat → Block 4) (l : Bytes) :
    ∀ {c : MgConnection} {acc : Bytes}, c.recv = acc ++ l → c.ofs = acc.length → l.length < 2 ^ 64 - 1 →
      (LengthsRight (c.ws_loop random).2 ↔
        Along (ws_take random []) Joins { c with recv := acc } (ws_framing.split l).1) := by
  fun_induction ws_framing.split l with
  | case1 l h =>
    intro c acc hrecv hofs _
    have hdrop : c.recv.drop c.ofs = l := by rw [hrecv, hofs, List.drop_left]
    rw [ws_loop_none (ws_turn_none (by rw [hdrop]; exact h))]
    exact iff_of_true (lengthsRight_quiet (by simp)) trivial
  | case2 l f k h ih =>
    intro c acc hrecv hofs hlen
    have hle : (l.drop k).length < 2 ^ 64 - 1 := by
      rw [List.length_drop]
      omega
    have hrest := @ih { (ws_take random (l.drop k) { c with recv := acc } f).1 with
      recv := (ws_join acc f).1 ++ l.drop k } (ws_join acc f).1 rfl rfl hle
    rw [ws_loop_some (ws_turn_some hrecv hofs h)]
    simp only [lengthsRight_append, ws_take_lengths hle, hrest]
    rfl

/-- After the loop no frame is left. -/
theorem ws_loop_settled (random : Nat → Block 4) (l : Bytes) :
    ∀ {c : MgConnection} {acc : Bytes}, c.recv = acc ++ l → c.ofs = acc.length →
      ∃ acc', Settled (c.ws_loop random).1 acc' (ws_framing.split l).2 := by
  fun_induction ws_framing.split l with
  | case1 l h =>
    intro c acc hrecv hofs
    have hdrop : c.recv.drop c.ofs = l := by rw [hrecv, hofs, List.drop_left]
    rw [ws_loop_none (ws_turn_none (by rw [hdrop]; exact h))]
    exact ⟨acc, hrecv, hofs, h⟩
  | case2 l f k h ih =>
    intro c acc hrecv hofs
    rw [ws_loop_some (ws_turn_some hrecv hofs h)]
    exact @ih { (ws_take random (l.drop k) { c with recv := acc } f).1 with
      recv := (ws_join acc f).1 ++ l.drop k } (ws_join acc f).1 rfl rfl

/-- If `chunk` is read, no message ends of which nothing has come. -/
def EndsBegun (random : Nat → Block 4) (c : MgConnection) (chunk : Bytes) : Prop :=
  c.is_closing = true ∨ MG_MAX_RECV_BUF_SIZE ≤ c.recv.length ∨
    Along (ws_take random []) Joins { c with recv := c.recv.take c.ofs }
      (ws_framing.split (c.recv.drop c.ofs ++ chunk)).1

theorem poll_read_lengths {c : MgConnection} {acc rest : Bytes} (hopen : c.is_websocket = true)
    (hs : Settled c acc rest) {chunk : Bytes} (hlong : chunk.length < 2 ^ 63) :
    (LengthsRight (poll_read random c chunk).2 ↔ EndsBegun random c chunk) ∧
      ∃ acc' rest', Settled (poll_read random c chunk).1 acc' rest' := by
  cases hclosing : c.is_closing with
  | true =>
    rw [poll_read_closing hclosing]
    exact ⟨iff_of_true (lengthsRight_quiet (by simp)) (.inl hclosing), acc, rest, hs⟩
  | false =>
    by_cases hfull : MG_MAX_RECV_BUF_SIZE ≤ c.recv.length
    · rw [poll_read, if_neg (by simp [hclosing]), read_conn, if_pos hfull]
      exact ⟨iff_of_true (lengthsRight_quiet (by simp)) (.inr (.inl hfull)), acc, rest, hs.recv, hs.ofs, hs.unfinished⟩
    · have hacc : c.recv.take c.ofs = acc := by rw [hs.recv, hs.ofs, List.take_left]
      have hrest : c.recv.drop c.ofs = rest := by rw [hs.recv, hs.ofs, List.drop_left]
      have hrecv : c.recv ++ chunk = acc ++ (rest ++ chunk) := by rw [hs.recv, List.append_assoc]
      have hlen : (rest ++ chunk).length < 2 ^ 64 - 1 := by
        have hle := congrArg List.length hs.recv
        rw [List.length_append] at hle ⊢
        unfold MG_MAX_RECV_BUF_SIZE at hfull
        omega
      rw [poll_read_room hclosing (.inr (Nat.lt_of_not_le hfull)), cb_read_open hopen, ws_read]
      refine ⟨?_, ?_⟩
      · rw [ws_loop_lengths random (rest ++ chunk) (c := { c with recv := c.recv ++ chunk }) hrecv hs.ofs hlen,
          EndsBegun, hacc, hrest]
        simp [hclosing, hfull]
      · obtain ⟨acc', hs'⟩ := ws_loop_settled random (rest ++ chunk) (c := { c with recv := c.recv ++ chunk }) hrecv
          hs.ofs
        exact ⟨acc', _, hs'⟩

/-- On an open connection the length given with a message is the length of its data, exactly if the server ends no
message of which nothing has come. -/
theorem lengths_right_iff (chunks : List Bytes) :
    ∀ {c : MgConnection} {acc rest : Bytes}, c.is_websocket = true → Settled c acc rest →
      (∀ chunk ∈ chunks, chunk.length < 2 ^ 63) →
      (LengthsRight (poll_events random c chunks) ↔ Along (poll_read random) (EndsBegun random) c chunks) := by
  induction chunks with
  | nil => intro c acc rest _ _ _; exact iff_of_true (lengthsRight_quiet (by simp [poll_events])) trivial
  | cons chunk chunks ih =>
    intro c acc rest hopen hs hlong
    rw [List.forall_mem_cons] at hlong
    obtain ⟨hstep, acc', rest', hs'⟩ := (@poll_read_lengths random) hopen hs hlong.1
    have hopen' := ((@poll_read_decided random) (.inl hopen) chunk).1.websocket.trans hopen
    rw [poll_events, trace_cons, List.flatMap_cons, lengthsRight_append, hstep, ← poll_events,
      ih hopen' hs' hlong.2]
    rfl

/-- A last fragment without data, of a message that has not begun: 2^64 - 1 bytes are announced. -/
theorem lengths_right_iff_empty :
    ¬ LengthsRight (poll_events (fun _ => .zeros 4) { is_websocket := true } [[128, 0]]) := by
  have hsplit : ws_framing.split [128, 0] = ([(128, [])], []) :=
    @split_frames [⟨128, none, []⟩] (by decide) [] rfl
  rw [lengths_right_iff [[128, 0]] rfl (show Settled { is_websocket := true } [] [] from ⟨rfl, rfl, rfl⟩) (by decide)]
  rintro ⟨hclosing | hfull | hbegun, -⟩
  · cases hclosing
  · exact absurd hfull (by decide)
  · rw [List.drop_nil, List.nil_append, hsplit] at hbegun
    exact hbegun.1 rfl

end MgConnection

end RtcClient
