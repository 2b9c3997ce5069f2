import Mathlib.Data.List.Perm.Basic
import RtcClient.Websocket.ClientRuns
/-!
# The sockets of the client

A turn of the manager that closes a connection closes its socket. The timer does not:
`mg_close_conn` only frees the connection. And a connection that never got a socket has
0 in its place, which is closed as if it were one. So the sockets that have been
opened, with a 0 for each such connection that is closed, are the descriptors that have
been closed, the socket that is held, and those of the connections the timer has
dropped (`sockets_lost`).
-/

namespace RtcClient

open Lib MgConnection

def opened_fd : ClientOut → Option Nat
  | .socket fd => some fd
  | _ => none

def closed_fd : ClientOut → Option Nat
  | .closesocket fd => some fd
  | _ => none

namespace Connection

/-- The socket of the connection, if it has one. -/
def socket (c : Connection) : Option Nat :=
  match c.fd with
  | .socket fd => some fd
  | _ => none

theorem mg_connect_resolved_fd (c : Connection) (a : SocketAnswer) :
    (c.mg_connect_resolved a).1.socket = a.fd ∧ (c.mg_connect_resolved a).1.is_resolving = false := by
  cases a <;> exact ⟨rfl, rfl⟩

/-- A connection that never got a socket, and is closing. -/
def stray (c : Connection) : List Nat := if c.fd = .zero ∧ c.is_closing = true then [0] else []

/-- A connection that never got a socket waits for the resolver, or is closing. -/
theorem Sound.zero {c : Connection} (h : c.Sound) (hzero : c.fd = .zero) :
    c.is_resolving = true ∨ c.is_closing = true := by
  by_contra hnot
  have hsocket := h.socket (by simp_all) (by simp_all)
  rw [hzero] at hsocket
  cases hsocket

/-- A connection that is closing goes on closing. -/
theorem stray_open {random : Nat → Block 4} {c : Connection} {answer : TurnAnswer}
    (hopen : (c.turn random answer).1.is_closing = false) : c.stray = [] := by
  refine if_neg ?_
  rintro ⟨-, hclosing⟩
  rw [turn, if_pos (by rw [hclosing, Bool.or_true]), hclosing] at hopen
  cases hopen

/-- What is closed is the socket, or 0. -/
theorem Sound.closed {random : Nat → Block 4} {c : Connection} (h : c.Sound) {answer : TurnAnswer}
    (hclosing : (c.turn random answer).1.is_closing = true) : c.fd.closed.toList = c.stray ++ c.socket.toList := by
  unfold stray Connection.socket
  cases hfd : c.fd with
  | zero =>
    have hwait : (c.is_resolving || c.is_closing) = true := Bool.or_eq_true_iff.2 (h.zero hfd)
    rw [turn, if_pos hwait] at hclosing
    rw [if_pos ⟨rfl, hclosing⟩]
    rfl
  | invalid => rfl
  | socket fd => rfl

theorem turn_fd (random : Nat → Block 4) (c : Connection) (answer : TurnAnswer) :
    (c.turn random answer).1.fd = c.fd ∧ (c.turn random answer).1.is_resolving = c.is_resolving := by
  have hread : ∀ a, (c.if_readable random a).1.fd = c.fd ∧
      (c.if_readable random a).1.is_resolving = c.is_resolving := by
    intro a
    cases a with
    | none => exact ⟨rfl, rfl⟩
    | some a =>
      simp only [if_readable, read_conn]
      split_ifs
      · exact ⟨rfl, rfl⟩
      · cases a <;> exact ⟨rfl, rfl⟩
  have hwrite : ∀ (d : Connection) a, (d.if_writable a).1.fd = d.fd ∧
      (d.if_writable a).1.is_resolving = d.is_resolving := by
    intro d a
    cases a with
    | none => exact ⟨rfl, rfl⟩
    | some a =>
      cases a with
      | wrote n =>
        simp only [if_writable, write_conn]
        split_ifs <;> exact ⟨rfl, rfl⟩
      | _ => exact ⟨rfl, rfl⟩
  unfold turn
  split_ifs
  · exact ⟨rfl, rfl⟩
  · cases answer.connect with
    | none => exact ⟨rfl, rfl⟩
    | some error => cases error <;> exact ⟨rfl, rfl⟩
  · obtain ⟨hfd, hresolving⟩ := hread answer.read
    obtain ⟨hfd', hresolving'⟩ := hwrite (c.if_readable random answer.read).1 answer.write
    exact ⟨hfd'.trans hfd, hresolving'.trans hresolving⟩

end Connection

namespace WSClientState

/-- The sockets of the connections there are. -/
def held (w : WSClientState) : List Nat := w.conns.filterMap (·.socket)

/-- The sockets the timer loses, if `s` is the timer. -/
def lost (w : WSClientState) : ClientStep → List Nat
  | .timer _ _ => if w.m_connected then [] else w.held
  | _ => []

/-- The descriptor 0, if a turn closes a connection that never got a socket. -/
def strays (w : WSClientState) : ClientStep → List Nat
  | .turn id _ => (w.conn id).toList.flatMap Connection.stray
  | _ => []

/-- A connection that waits for the resolver has no socket yet. -/
def Waits (w : WSClientState) : Prop := ∀ c ∈ w.conns, c.is_resolving = true → c.fd = .zero

theorem opened_none {α : Type} {f : α → ClientOut} {g : ClientOut → Option Nat} (hf : ∀ x, g (f x) = none)
    (o : Option α) : (o.map f).toList.filterMap g = [] := by
  cases o with
  | none => rfl
  | some x => exact List.filterMap_cons_none (hf x)

/-- Neither the callbacks nor what is written open or close a socket. -/
theorem no_sockets (g : ClientOut → Option Nat) (hg : g = opened_fd ∨ g = closed_fd) :
    (∀ (es : List WsEvent) (w : WSClientState), (w.handle es).2.filterMap g = []) ∧
      (∀ k data, (wrote_out k data).filterMap g = []) ∧ ∀ w : WSClientState, w.closed_out.filterMap g = [] := by
  have hnone : g .opened = none ∧ g .closed = none ∧ (∀ data len, g (.text data len) = none) ∧
      ∀ k data, g (.wrote k data) = none := by
    rcases hg with rfl | rfl <;> exact ⟨rfl, rfl, fun _ _ => rfl, fun _ _ => rfl⟩
  obtain ⟨hopened, hclosed, htext, hwrote⟩ := hnone
  have hclosed_out : ∀ w : WSClientState, w.closed_out.filterMap g = [] := by
    intro w
    unfold closed_out
    split_ifs <;> simp [hclosed]
  refine ⟨?_, ?_, hclosed_out⟩
  · intro es
    induction es with
    | nil => intro w; rfl
    | cons e es ih =>
      intro w
      have hfirst : (w.on_event_handle e).2.filterMap g = [] := by
        cases e with
        | wsOpen => rw [on_event_handle]; split_ifs <;> simp [hopened]
        | wsMsg flags data len => rw [on_event_handle]; split_ifs <;> simp [htext]
        | wsCtl flags data => rfl
        | error text => rfl
        | close => exact hclosed_out w
      rw [handle, List.filterMap_append, hfirst, ih]
      rfl
  · intro k data
    unfold wrote_out
    split_ifs <;> simp [hwrote]

theorem held_one {w : WSClientState} {c : Connection} (h : w.conns = [c]) : w.held = c.socket.toList := by
  rw [held, h]
  cases hfd : c.socket with
  | none => rw [List.filterMap_cons_none hfd]; rfl
  | some fd => rw [List.filterMap_cons_some hfd]; rfl

theorem strays_one {w : WSClientState} {c : Connection} (h : w.conns = [c]) (answer : TurnAnswer) :
    w.strays (.turn c.id answer) = c.stray := by
  rw [strays, conn_one h, if_pos rfl]
  exact List.append_nil _

/-- The socket of a new connection. -/
theorem new_connection_fd (w : WSClientState) (nonce : Block 16) (answer : ConnectAnswer) :
    answer.sockets.filterMap opened_fd = (w.new_connection nonce answer).1.socket.toList ∧
      answer.sockets.filterMap closed_fd = [] ∧
      ((w.new_connection nonce answer).1.is_resolving = true → (w.new_connection nonce answer).1.fd = .zero) := by
  cases answer with
  | address socket => cases socket <;> exact ⟨rfl, rfl, fun h => (by cases h)⟩
  | _ => exact ⟨rfl, rfl, fun _ => rfl⟩

/-- What a step does with the sockets. -/
structure Balanced (w w' : WSClientState) (s : ClientStep) (outs : List ClientOut) : Prop where
  balance : w.strays s ++ w.held ++ outs.filterMap opened_fd = outs.filterMap closed_fd ++ (w.lost s ++ w'.held)
  waits : w'.Waits

theorem does_balanced {random : Nat → Nat → Block 4} {w w' : WSClientState} {s : ClientStep} {outs : List ClientOut}
    (h : w.Holds) (hw : w.Waits) (hdoes : Does random w s w' outs) : Balanced w w' s outs := by
  obtain ⟨hhandle, hwrote, hclosed_out⟩ := no_sockets opened_fd (.inl rfl)
  obtain ⟨hhandle', hwrote', hclosed_out'⟩ := no_sockets closed_fd (.inr rfl)
  cases hdoes with
  | stays hs hturn hout =>
    refine ⟨?_, hw⟩
    have hlost : w.lost s = [] := by
      cases s with
      | timer nonce answer => exact absurd rfl (hs nonce answer)
      | _ => rfl
    have hstrays : w.strays s = [] := by
      cases s with
      | turn id answer =>
        rw [strays, Option.toList_eq_nil_iff.2, List.flatMap_nil]
        refine List.find?_eq_none.2 fun c hc hid => hturn c hc answer ?_
        rw [of_decide_eq_true hid]
      | _ => rfl
    rw [hlost, hstrays]
    rcases hout with rfl | rfl <;> exact List.append_nil _
  | set_text_received_func set => exact ⟨by simp [lost, strays, held], hw⟩
  | set_ws_event_func set => exact ⟨by simp [lost, strays, held], hw⟩
  | no_connect hconnected hout =>
    have hnone : outs.filterMap opened_fd = [] ∧ outs.filterMap closed_fd = [] := by
      rcases hout with rfl | rfl
      · exact ⟨rfl, rfl⟩
      · exact ⟨hclosed_out w, hclosed_out' w⟩
    refine ⟨?_, by simp [Waits, dropped]⟩
    rw [hnone.1, hnone.2]
    simp [lost, strays, hconnected, held, dropped]
  | @connect nonce answer before hconnected hanswer hout =>
    have hnone : before.filterMap opened_fd = [] ∧ before.filterMap closed_fd = [] := by
      rcases hout with ⟨-, rfl⟩ | rfl
      · exact ⟨rfl, rfl⟩
      · exact ⟨hclosed_out w, hclosed_out' w⟩
    obtain ⟨hopened, hclosed, hwaits⟩ := new_connection_fd w nonce answer
    refine ⟨?_, by simpa [Waits] using hwaits⟩
    rw [List.filterMap_append, List.filterMap_append, hnone.1, hnone.2, hopened, hclosed, lost, hconnected]
    exact congrArg (w.held ++ ·) (held_one rfl).symm
  | @ping nonce answer c hconns hconnected =>
    refine ⟨?_, ?_⟩
    · rw [held_one hconns, held_one rfl, lost, hconnected]
      exact List.append_nil _
    · simpa [Waits, Connection.queue, hconns] using hw
  | @send_text msg c hconns hconnected =>
    refine ⟨?_, ?_⟩
    · rw [held_one hconns, held_one rfl, (rfl : w.lost (.send_text msg) = [])]
      exact List.append_nil _
    · simpa [Waits, Connection.queue, hconns] using hw
  | @resolved c socket hconns hresolving =>
    obtain ⟨hfd, hresolved⟩ := c.mg_connect_resolved_fd socket
    have hnone : c.socket = none := by
      rw [Connection.socket, hw c (by rw [hconns]; exact List.mem_singleton_self c) hresolving]
    have hopened : (socket.fd.map ClientOut.socket).toList.filterMap opened_fd = socket.fd.toList := by
      cases socket <;> rfl
    refine ⟨?_, ?_⟩
    · rw [held_one hconns, held_one rfl, hfd, hnone, hopened, opened_none (fun _ => rfl),
        (rfl : w.lost (.resolve c.id (.resolved socket)) = [])]
      rfl
    · simp [Waits, hresolved]
  | @not_resolved c text hconns hresolving =>
    refine ⟨?_, ?_⟩
    · rw [held_one hconns, held_one rfl, (rfl : w.lost (.resolve c.id (.failed text)) = [])]
      exact List.append_nil _
    · simpa [Waits, Connection.mg_error, hconns] using hw
  | @turn c answer hconns hopen =>
    obtain ⟨hfd, hresolving⟩ := Connection.turn_fd (random c.id) c answer
    have hsocket : (c.turn (random c.id) answer).1.socket = c.socket := by rw [Connection.socket, hfd, Connection.socket]
    refine ⟨?_, ?_⟩
    · rw [held_one hconns, held_one rfl, hsocket, strays_one hconns, Connection.stray_open hopen, List.filterMap_append, List.filterMap_append, hhandle, hwrote, hhandle',
        hwrote', (rfl : w.lost (.turn c.id answer) = [])]
      exact List.append_nil _
    · simpa [Waits, hfd, hresolving, hconns] using hw
  | @close c answer hconns hclosing =>
    obtain ⟨hfd, -⟩ := Connection.turn_fd (random c.id) c answer
    have hclosed : (c.fd.closed.map ClientOut.closesocket).toList.filterMap closed_fd = c.fd.closed.toList := by
      cases c.fd.closed <;> rfl
    rw [(h.conn hconns).2.2.closed hclosing] at hclosed
    refine ⟨?_, by simp [Waits, dropped]⟩
    simp only [List.filterMap_append, hhandle, hwrote, hclosed_out, hhandle', hwrote', hclosed_out', hfd, hclosed,
      opened_none (g := opened_fd) (f := ClientOut.closesocket) (fun _ => rfl), held_one hconns, strays_one hconns]
    have hlost : w.lost (.turn c.id answer) = [] := rfl
    have hdropped : w.dropped.held = [] := rfl
    rw [hlost, hdropped]
    simp

/-- The sockets the timer loses in a run. -/
def run_lost (random : Nat → Nat → Block 4) (w : WSClientState) : List ClientStep → List Nat
  | [] => []
  | s :: steps => w.lost s ++ run_lost random (w.step random s).1 steps

/-- The zeros that are closed in a run for connections that never got a socket. -/
def run_strays (random : Nat → Nat → Block 4) (w : WSClientState) : List ClientStep → List Nat
  | [] => []
  | s :: steps => w.strays s ++ run_strays random (w.step random s).1 steps

theorem run_balanced (random : Nat → Nat → Block 4) (steps : List ClientStep) :
    ∀ {w : WSClientState}, w.Holds → w.Waits →
      (run_strays random w steps ++ w.held ++ (run_outs random w steps).filterMap opened_fd).Perm
        ((run_outs random w steps).filterMap closed_fd ++
          (run_lost random w steps ++ (final (step random) w steps).held)) := by
  induction steps with
  | nil =>
    intro w _ _
    simp [run_outs, run_lost, run_strays]
  | cons s steps ih =>
    intro w h hw
    have hdoes := (@step_does random) h s
    obtain ⟨hbalance, hwaits⟩ := does_balanced h hw hdoes
    have hrest := ih (does_holds h hdoes) hwaits
    rw [List.perm_iff_count] at hrest ⊢
    intro fd
    -- What the step loses and what is lost later are counted together.
    have hstep := congrArg (List.count fd) hbalance
    have hlater := hrest fd
    simp only [run_outs, trace_cons, List.flatMap_cons, List.filterMap_append, run_lost, run_strays, final_cons,
      List.count_append] at hstep hlater ⊢
    omega

theorem run_lost_nil (random : Nat → Nat → Block 4) (steps : List ClientStep) :
    ∀ w : WSClientState, run_lost random w steps = [] ↔ Along (step random) (fun v s => v.lost s = []) w steps := by
  induction steps with
  | nil => intro w; exact iff_of_true rfl trivial
  | cons s steps ih =>
    intro w
    rw [run_lost, List.append_eq_nil_iff, ih]
    rfl

/-- The sockets that have been opened, with a 0 for each connection that never got one and is closed by a turn, are the
descriptors that have been closed, those the timer has lost, and the one that is held. So none is lost exactly if the
timer never finds a connection with a socket that is not open. -/
theorem sockets_lost (random : Nat → Nat → Block 4) (serverURL : Bytes) (nonce : Block 16) (answer : ConnectAnswer)
    (steps : List ClientStep) :
    let w := (init random serverURL nonce answer).1
    let outs := (init random serverURL nonce answer).2 ++ run_outs random w steps
    let w' := final (step random) w steps
    (outs.filterMap opened_fd ++ run_strays random w steps).Perm
        (outs.filterMap closed_fd ++ (run_lost random w steps ++ w'.held)) ∧
      ((outs.filterMap opened_fd ++ run_strays random w steps).Perm (outs.filterMap closed_fd ++ w'.held) ↔
        Along (step random) (fun v s => v.lost s = []) w steps) := by
  intro w outs w'
  have hidle : Holds { m_server_url := serverURL } := .idle rfl rfl rfl
  obtain ⟨hbalance, hwaits⟩ := does_balanced hidle (by simp [Waits]) ((@on_timer_does random) hidle nonce answer)
  have hinit : (init random serverURL nonce answer).2.filterMap opened_fd =
      (init random serverURL nonce answer).2.filterMap closed_fd ++ w.held := hbalance
  have hrun := run_balanced random steps (init_holds random serverURL nonce answer) hwaits
  have hall : (outs.filterMap opened_fd ++ run_strays random w steps).Perm
      (outs.filterMap closed_fd ++ (run_lost random w steps ++ w'.held)) := by
    rw [List.perm_iff_count] at hrun ⊢
    intro fd
    have hfirst := congrArg (List.count fd) hinit
    have hlater := hrun fd
    simp only [outs, w', w, List.filterMap_append, List.count_append] at hfirst hlater ⊢
    omega
  refine ⟨hall, ?_⟩
  rw [← run_lost_nil]
  constructor
  · intro hnone
    have hlen := hall.symm.trans hnone |>.length_eq
    simp only [List.length_append] at hlen
    exact List.length_eq_zero_iff.1 (by omega)
  · intro hnone
    rw [hnone] at hall
    exact hall

end WSClientState

end RtcClient
