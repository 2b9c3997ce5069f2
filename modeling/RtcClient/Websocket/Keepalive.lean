import RtcClient.Websocket.ClientRuns
import RtcClient.Websocket.Timer
/-!
# The client and its timer

The timer of a client calls `on_timer`, which sends a ping on an open connection and makes a new
one otherwise. So the client has done one or the other for every 12 seconds, whatever happens to
its connections (`kept_alive`).
-/

namespace RtcClient

open Lib WSClientState

/-- A client, and the timers of the process. `m_timer` is the id of its own. -/
structure TimedClient where
  client : WSClientState
  m_timer : Nat
  timers : MgTimers
deriving DecidableEq, Repr

/-- What is done with the timers, among it the polls, or a step of the client that the timer does not take. -/
inductive PulseStep where
  | timers (call : TimerCall) (nonce : Block 16) (answer : ConnectAnswer)
  | client (s : ClientStep) (hs : ∀ nonce answer, s ≠ .timer nonce answer)

namespace TimedClient

def step (random : Nat → Nat → Block 4) (c : TimedClient) : PulseStep → TimedClient × List ClientOut
  | .timers call nonce answer =>
    let r := c.timers.step call
    let w := if c.m_timer ∈ r.2 then c.client.on_timer random nonce answer else (c.client, [])
    ({ c with client := w.1, timers := r.1 }, w.2)
  | .client s _ => ({ c with client := (c.client.step random s).1 }, (c.client.step random s).2)

/-- The period is 12 seconds, and the timer runs at once. -/
def timer_call (m_timer : Nat) : TimerCall := .mg_timer_init m_timer (1000 * 12) (MG_TIMER_REPEAT ||| MG_TIMER_RUN_NOW)

/-- The constructor. -/
def init (random : Nat → Nat → Block 4) (timers : MgTimers) (m_timer : Nat) (serverURL : Bytes) (nonce : Block 16)
    (answer : ConnectAnswer) : TimedClient × List ClientOut :=
  step random { client := { m_server_url := serverURL }, m_timer := m_timer, timers := timers }
    (.timers (timer_call m_timer) nonce answer)

/-- The constructor, and the first poll of the manager, at `now_ms`. -/
def started (random : Nat → Nat → Block 4) (timers : MgTimers) (m_timer : Nat) (serverURL : Bytes) (nonce : Block 16)
    (answer : ConnectAnswer) (now_ms : Int) : TimedClient × List ClientOut :=
  let made := init random timers m_timer serverURL nonce answer
  let first := made.1.step random (.timers (.mg_timer_poll now_ms) nonce answer)
  (first.1, made.2 ++ first.2)

def is_ping : ClientOut → Bool
  | .queued _ op _ => op = WEBSOCKET_OP_PING
  | _ => false

/-- How many pings are sent. -/
def pings (outs : List ClientOut) : Nat := outs.countP is_ping

theorem pings_append (outs outs' : List ClientOut) : pings (outs ++ outs') = pings outs + pings outs' :=
  List.countP_append

/-! ## What a step sends -/

theorem handle_no_pings (es : List WsEvent) (w : WSClientState) : pings (w.handle es).2 = 0 := by
  induction es generalizing w with
  | nil => rfl
  | cons e es ih =>
    have hfirst : pings (w.on_event_handle e).2 = 0 := by
      cases e with
      | wsOpen => cases hws : w.m_ws_func <;> simp [on_event_handle, hws, pings, is_ping]
      | wsMsg flags data len =>
        rw [on_event_handle]
        split_ifs <;> rfl
      | wsCtl flags data => rfl
      | error text => rfl
      | close => cases hws : w.m_ws_func <;> simp [on_event_handle, hws, pings, is_ping]
    rw [handle, pings_append, hfirst, ih]

theorem sockets_no_pings (answer : ConnectAnswer) : pings answer.sockets = 0 := by
  cases answer with
  | address socket => cases socket <;> rfl
  | oom => rfl
  | request => rfl
  | failed text => rfl

theorem closed_no_pings (w : WSClientState) : pings w.closed_out = 0 := by
  rw [closed_out]
  split_ifs <;> rfl

/-- A new connection is made. -/
theorem mg_ws_connect_tries (w : WSClientState) (hurl : w.m_server_url ≠ []) (nonce : Block 16) {answer : ConnectAnswer}
    (hanswer : answer ≠ .oom) :
    (w.mg_ws_connect nonce answer).1.nextid = w.nextid + 1 ∧
      (w.mg_ws_connect nonce answer).1.m_server_url = w.m_server_url ∧ pings (w.mg_ws_connect nonce answer).2 = 0 := by
  obtain ⟨-, -, -, hsilent⟩ := Connection.mg_resolve_sound (c := { id := w.nextid + 1 }) rfl rfl hanswer
  rw [mg_ws_connect, if_neg (not_or.2 ⟨hurl, hanswer⟩)]
  simp only [(@handle_silent ((w.new_connection nonce answer).2)) hsilent, List.append_nil]
  exact ⟨trivial, trivial, sockets_no_pings answer⟩

/-- The timer sends a ping, or a new connection is made. -/
theorem on_timer_tries {random : Nat → Nat → Block 4} {w : WSClientState} (h : w.Holds) (hurl : w.m_server_url ≠ [])
    (nonce : Block 16) {answer : ConnectAnswer} (hanswer : answer ≠ .oom) :
    (w.on_timer random nonce answer).1.nextid + pings (w.on_timer random nonce answer).2 = w.nextid + 1 ∧
      (w.on_timer random nonce answer).1.m_server_url = w.m_server_url := by
  rcases h with ⟨hconns, hptr, hconnected⟩ | ⟨c, hconns, hptr, hconnected, -⟩
  · obtain ⟨hnext, hsame, hnone⟩ := mg_ws_connect_tries w hurl nonce hanswer
    rw [on_timer, if_neg (by simp [hconnected]), hptr]
    simp only [hnext, hsame, hnone, Nat.add_zero, and_self]
  · cases hopen : w.m_connected with
    | true =>
      rw [on_timer, if_pos hopen, ws_send, hptr, Option.bind_some, conn_one hconns, if_pos rfl]
      exact ⟨rfl, rfl⟩
    | false =>
      obtain ⟨hnext, hsame, hnone⟩ := mg_ws_connect_tries w.dropped hurl nonce hanswer
      rw [on_timer, if_neg (by simp [hopen]), hptr]
      simp only [mg_close_conn_one hconns, pings_append, closed_no_pings, Nat.zero_add]
      have htries : (w.dropped.mg_ws_connect nonce answer).1.nextid + pings (w.dropped.mg_ws_connect nonce answer).2 =
          w.nextid + 1 := by
        rw [hnone]
        exact hnext
      exact ⟨htries, hsame⟩

/-- The other steps do neither. -/
theorem step_tries {random : Nat → Nat → Block 4} {w : WSClientState} (h : w.Holds) {s : ClientStep}
    (hs : ∀ nonce answer, s ≠ .timer nonce answer) :
    (w.step random s).1.nextid = w.nextid ∧ (w.step random s).1.m_server_url = w.m_server_url ∧
      pings (w.step random s).2 = 0 := by
  have hwrote (id : Nat) (data : Bytes) : pings (wrote_out id data) = 0 := by
    rw [wrote_out]
    split_ifs <;> rfl
  have hdoes := (@step_does random) h s
  generalize w.step random s = r at hdoes ⊢
  obtain ⟨w', outs⟩ := r
  cases hdoes with
  | stays _ _ h => exact ⟨rfl, rfl, by rcases h with rfl | rfl <;> rfl⟩
  | set_text_received_func set => exact ⟨rfl, rfl, rfl⟩
  | set_ws_event_func set => exact ⟨rfl, rfl, rfl⟩
  | no_connect _ _ => exact absurd rfl (hs _ _)
  | connect _ _ _ => exact absurd rfl (hs _ _)
  | ping _ _ => exact absurd rfl (hs _ _)
  | send_text _ _ => exact ⟨rfl, rfl, rfl⟩
  | resolved socket _ _ => exact ⟨rfl, rfl, by cases socket <;> rfl⟩
  | not_resolved text _ _ => exact ⟨rfl, rfl, rfl⟩
  | @turn c answer _ _ =>
    refine ⟨rfl, rfl, ?_⟩
    show pings ((w.handle (c.turn (random c.id) answer).2.1).2 ++ wrote_out _ _) = 0
    rw [pings_append, handle_no_pings, hwrote]
  | @close c answer _ _ =>
    have hsocket : pings ((c.turn (random c.id) answer).1.fd.closed.map ClientOut.closesocket).toList = 0 := by
      cases (c.turn (random c.id) answer).1.fd.closed <;> rfl
    refine ⟨rfl, rfl, ?_⟩
    show pings ((w.handle (c.turn (random c.id) answer).2.1).2 ++ wrote_out _ _ ++ _ ++ w.closed_out) = 0
    rw [pings_append, pings_append, pings_append, handle_no_pings, hwrote, hsocket, closed_no_pings]

/-! ## Runs -/

/-- The timer of a client. -/
def own_timer (m_timer : Nat) : MgTimer :=
  { id := m_timer, period_ms := 1000 * 12, flags := MG_TIMER_REPEAT ||| MG_TIMER_RUN_NOW }

/-- There is memory for a connection, and the manager polls at least once a period. -/
def Regular (c : TimedClient) : PulseStep → Prop
  | .timers call _ answer => answer ≠ .oom ∧ MgTimers.Steady (own_timer c.m_timer) c.timers call
  | .client _ _ => True

instance (c : TimedClient) : (s : PulseStep) → Decidable (Regular c s)
  | .timers call _ answer =>
    inferInstanceAs (Decidable (answer ≠ .oom ∧ MgTimers.Steady (own_timer c.m_timer) c.timers call))
  | .client _ _ => inferInstanceAs (Decidable True)

/-- The timer has run once when the client was made, and `k` times since `start`, and each time the client has made a
connection or sent a ping. `sent` are the pings. -/
structure Kept (start : Int) (c : TimedClient) (sent : Nat) : Prop where
  holds : c.client.Holds
  url : c.client.m_server_url ≠ []
  tried : ∃ k, MgTimers.Due (own_timer c.m_timer) start k c.timers ∧ c.client.nextid + sent = 1 + k

variable {random : Nat → Nat → Block 4} {start : Int} {sent : Nat} {c : TimedClient}

theorem own_timer_repeats (m_timer : Nat) : (own_timer m_timer).flags &&& MG_TIMER_REPEAT ≠ 0 :=
  show (MG_TIMER_REPEAT ||| MG_TIMER_RUN_NOW) &&& MG_TIMER_REPEAT ≠ 0 by decide

theorem own_timer_period (m_timer : Nat) : 0 < (own_timer m_timer).period_ms := show (0 : Int) < 1000 * 12 by decide

/-- A timer runs at most once in a call. -/
theorem fired_nodup {s : MgTimers} (hids : (s.g_timers.map MgTimer.id).Nodup) (call : TimerCall) :
    (s.step call).2.Nodup := by
  cases call with
  | mg_timer_init id ms flags =>
    rw [MgTimers.step]
    split_ifs
    · exact List.nodup_nil
    · exact List.nodup_cons.2 ⟨List.not_mem_nil, List.nodup_nil⟩
  | mg_timer_free id => exact List.nodup_nil
  | mg_timer_poll now_ms =>
    show (s.mg_timer_poll now_ms).2.Nodup
    rw [MgTimers.mg_timer_poll]
    split_ifs
    · refine List.Nodup.sublist (MgTimers.poll_loop_ids now_ms _).2 ?_
      rwa [List.map_map]
    · exact hids.sublist (MgTimers.poll_loop_ids now_ms _).2

theorem Kept.step (h : Kept start c sent) (hstart : 0 ≤ start) {s : PulseStep} (hs : Regular c s) :
    Kept start (c.step random s).1 (sent + pings (c.step random s).2) := by
  obtain ⟨k, hdue, hcount⟩ := h.tried
  cases s with
  | timers call nonce answer =>
    obtain ⟨hanswer, hcall⟩ := hs
    have hdue' := hdue.step (own_timer_repeats _) (own_timer_period _) hstart hcall
    have honce := (fired_nodup hdue.ids call).count (a := c.m_timer)
    rw [TimedClient.step]
    by_cases hfires : c.m_timer ∈ (c.timers.step call).2
    · obtain ⟨htries, hsame⟩ := (@on_timer_tries random) h.holds h.url nonce hanswer
      rw [if_pos hfires] at honce
      simp only [if_pos hfires]
      exact {
        holds := does_holds h.holds (on_timer_does h.holds nonce answer)
        url := by rw [hsame]; exact h.url
        tried := by
          refine ⟨_, hdue', ?_⟩
          show (c.client.on_timer random nonce answer).1.nextid + _ = 1 + (k + (c.timers.step call).2.count c.m_timer)
          omega }
    · rw [if_neg hfires] at honce
      simp only [if_neg hfires]
      exact {
        holds := h.holds
        url := h.url
        tried := by
          refine ⟨_, hdue', ?_⟩
          show _ = 1 + (k + (c.timers.step call).2.count c.m_timer)
          rw [honce]
          exact hcount }
  | client s hother =>
    obtain ⟨hnext, hsame, hnone⟩ := (@step_tries random) h.holds hother
    exact {
      holds := does_holds h.holds (step_does h.holds s)
      url := by rw [TimedClient.step, hsame]; exact h.url
      tried := ⟨k, hdue, by rw [TimedClient.step, hnext, hnone]; exact hcount⟩ }

/-- The client makes a connection when it is made, and its timer is set at the first poll. -/
theorem started_kept {timers : MgTimers} {m_timer : Nat} {serverURL : Bytes} (hurl : serverURL ≠ [])
    (hids : (timers.g_timers.map MgTimer.id).Nodup) (hnew : m_timer ∉ timers.g_timers.map MgTimer.id)
    (nonce : Block 16) {answer : ConnectAnswer} (hanswer : answer ≠ .oom) :
    Kept start (started random timers m_timer serverURL nonce answer start).1
      (pings (started random timers m_timer serverURL nonce answer start).2) := by
  have hidle : Holds { m_server_url := serverURL } := .idle rfl rfl rfl
  obtain ⟨htries, hsame⟩ := (@on_timer_tries random) hidle hurl nonce hanswer
  have hall : ((own_timer m_timer :: timers.g_timers).map MgTimer.id).Nodup := List.nodup_cons.2 ⟨hnew, hids⟩
  obtain ⟨hdue, hnone⟩ := (@MgTimers.due_first (own_timer m_timer) start
    { timers with g_timers := own_timer m_timer :: timers.g_timers })
    List.mem_cons_self hall (own_timer_repeats _) (own_timer_period _) (.inl rfl)
  have hset : timers.step (timer_call m_timer) =
      ({ timers with g_timers := own_timer m_timer :: timers.g_timers }, [m_timer]) := rfl
  have hwaits : m_timer ∉ (MgTimers.mg_timer_poll
      { timers with g_timers := own_timer m_timer :: timers.g_timers } start).2 := List.count_eq_zero.1 hnone
  have hmade : init random timers m_timer serverURL nonce answer =
      ({ client := (on_timer random { m_server_url := serverURL } nonce answer).1, m_timer := m_timer
         timers := { timers with g_timers := own_timer m_timer :: timers.g_timers } },
        (on_timer random { m_server_url := serverURL } nonce answer).2) := by
    simp only [init, TimedClient.step, hset, if_pos (List.mem_singleton_self m_timer)]
  have hstarted : started random timers m_timer serverURL nonce answer start =
      ({ client := (on_timer random { m_server_url := serverURL } nonce answer).1, m_timer := m_timer
         timers := (MgTimers.mg_timer_poll
          { timers with g_timers := own_timer m_timer :: timers.g_timers } start).1 },
        (on_timer random { m_server_url := serverURL } nonce answer).2) := by
    simp only [started, hmade, TimedClient.step, MgTimers.step, if_neg hwaits, List.append_nil]
  rw [hstarted]
  exact {
    holds := does_holds hidle (on_timer_does hidle nonce answer)
    url := by rw [hsame]; exact hurl
    tried := ⟨0, hdue, htries⟩ }

end TimedClient

open TimedClient in
/-- A client is made, and the manager polls, for the first time at `start`, and at least once in 12 seconds. Whatever
happens to the connections, the client has made a connection or sent a ping when it was made, and once for each
12 seconds since. -/
theorem kept_alive (random : Nat → Nat → Block 4) {timers : MgTimers} {m_timer : Nat} {serverURL : Bytes}
    (hurl : serverURL ≠ []) (hids : (timers.g_timers.map MgTimer.id).Nodup)
    (hnew : m_timer ∉ timers.g_timers.map MgTimer.id) (nonce : Block 16) {answer : ConnectAnswer}
    (hanswer : answer ≠ .oom) {start : Int} (hstart : 0 ≤ start) {steps : List PulseStep}
    (hsteps : Along (TimedClient.step random) Regular
      (started random timers m_timer serverURL nonce answer start).1 steps) :
    let first := started random timers m_timer serverURL nonce answer start
    let c := final (TimedClient.step random) first.1 steps
    let outs := first.2 ++ (trace (TimedClient.step random) first.1 steps).flatMap Prod.snd
    ((c.client.nextid + pings outs : Nat) : Int) = 1 + (c.timers.oldnow - start) / (1000 * 12) := by
  intro first c outs
  have hfirst := (@started_kept random start) hurl hids hnew nonce hanswer
  have hkept := Along.rule (TimedClient.step random) (h := [])
    (fun c h => Kept start c (pings (first.2 ++ h.flatMap Prod.snd)))
    (fun c h s hc hs => by
      rw [List.flatMap_append, List.flatMap_singleton, ← List.append_assoc, pings_append]
      exact hc.step hstart hs) hsteps (by simpa using hfirst)
  rw [List.nil_append] at hkept
  obtain ⟨k, hdue, hcount⟩ := hkept.tried
  rw [hcount, Int.natCast_add, hdue.count (own_timer_period _)]
  rfl

/-- A client whose connection is refused, and whose manager polls every 8 seconds. -/
theorem kept_alive_refused :
    let random : Nat → Nat → Block 4 := fun _ _ => .zeros 4
    let poll (now_ms : Int) : PulseStep := .timers (.mg_timer_poll now_ms) (.zeros 16) (.address (.refused 3 111))
    let first := TimedClient.started random {} 1 (ascii "ws://10.0.0.1:8000") (.zeros 16) (.address (.refused 3 111)) 0
    let steps := [poll 8000, .client (.turn 1 {}) (by simp), poll 16000, poll 24000]
    let c := final (TimedClient.step random) first.1 steps
    let outs := first.2 ++ (trace (TimedClient.step random) first.1 steps).flatMap Prod.snd
    ((c.client.nextid + TimedClient.pings outs : Nat) : Int) = 1 + (c.timers.oldnow - 0) / (1000 * 12) :=
  kept_alive _ (by decide) (by decide) (by decide) _ (by decide) (Int.le_refl 0)
    (by decide)

end RtcClient
