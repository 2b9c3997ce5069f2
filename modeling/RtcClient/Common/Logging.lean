import RtcClient.Common.LogFiles
import RtcClient.Common.MsgAccounts
/-!
# A logger at work

Threads log with the mode `ASYNC`: a call makes a task and puts it into the queue, and the
thread of the queue prints the tasks it handles. What has been printed is, in the order of
the queue, what the calls would have printed at once; the calls that `put` has taken and
that are not printed yet wait, or were destroyed when the queue was cleared. The calls
of a thread keep their order (`calls_logged`).
-/

namespace RtcClient

open Lib SimpleMessageQueue

/-! ## The model -/

/-- A call of one of the loggers. `text` is what the format comes to, `stack` the memory behind `szLog`. -/
structure LogCall where
  msgtype : Bytes
  filename : Bytes
  line : Int
  text : Bytes
  stack : Bytes
deriving DecidableEq, Repr

def LogCall.action (call : LogCall) (type : LogType) : Option LogAction :=
  ((AppLogger.mk type).log call.msgtype call.filename call.line call.text call.stack).value

/-- The line the call prints in the mode `SYNC`. -/
def LogCall.printed (call : LogCall) : Option LogLine := (call.action .SYNC).bind LogAction.line

/-- What the system says when a line is printed. -/
structure LogMoment where
  date : LogDate
  szNow : Bytes
  tid : Nat
  opened : Bool
deriving DecidableEq, Repr

/-- A task in memory, and for which call of which thread it was made. -/
structure MadeTask where
  thread : Nat
  call : LogCall
  task : LogTask
deriving DecidableEq, Repr

/-- The queue of a logger, the tasks that have been made, and the files. The address of a task is its place in the
list. -/
structure Logging where
  queue : State
  made : List MadeTask := []
  files : LogFiles

/-- A thread logs, or a thread takes its next step in the queue. -/
inductive LoggingStep where
  | log (p : Nat) (call : LogCall)
  | queue (l : Label) (hl : putMessage l = none) (moment : LogMoment)

/-- A call, and its thread. -/
def LoggingStep.call : LoggingStep → Option (Nat × LogCall)
  | .log p call => some (p, call)
  | .queue _ _ _ => none

namespace Logging

/-- The message whose handling is the step. -/
def handling : Label → Consumer → Option MessageItem
  | .handle, .handling msg => some msg
  | _, _ => none

/-- What `handle_msg` prints. -/
def write (s : Logging) (msg : MessageItem) (moment : LogMoment) : Option LogWrite := do
  let made ← s.made[msg.m_pdata]?
  let line ← (AppLogger.handle_msg msg.m_msg_id made.task).value
  return ⟨moment.date, moment.szNow, moment.tid, moment.opened, line⟩

def step (config : LogConfig) (s : Logging) : LoggingStep → Logging × Option LogWrite
  | .log p call =>
    match call.action .ASYNC with
    | some (.put m_msg_id m_first_param m_second_param task) =>
      let r := SimpleMessageQueue.step s.queue (.put p ⟨m_msg_id, m_first_param, m_second_param, s.made.length⟩)
      ({ s with queue := r.1, made := if r.2 then s.made ++ [⟨p, call, task⟩] else s.made }, none)
    | _ => (s, none)
  | .queue l _ moment =>
    let w := (handling l s.queue.consumer).bind (s.write · moment)
    ({ s with
      queue := (SimpleMessageQueue.step s.queue l).1
      files := w.elim s.files (config.write s.files) }, w)

/-- `initialize` has set the fields and calls `start` next. -/
def init (disk : Bytes → Option Bytes) : Logging :=
  { queue := new (1024 * 20), files := { disk := disk } }

/-! ## Messages with tasks -/

/-- The line that is printed at once by the call whose task a message has. -/
def lineOf (made : List MadeTask) (msg : MessageItem) : Option LogLine :=
  made[msg.m_pdata]?.bind (·.call.printed)

/-- The thread whose call a message is for. -/
def threadOf (made : List MadeTask) (msg : MessageItem) : Option Nat := made[msg.m_pdata]?.map MadeTask.thread

/-- The message has a task, and what `handle_msg` prints of it is what its call would print at once. -/
def Carries (made : List MadeTask) (msg : MessageItem) : Prop :=
  isMessage msg = true ∧ ∃ r line, made[msg.m_pdata]? = some r ∧
    (AppLogger.handle_msg msg.m_msg_id r.task).value = some line ∧ r.call.printed = some line

theorem Carries.append {made : List MadeTask} {msg : MessageItem} (h : Carries made msg)
    (more : List MadeTask) : Carries (made ++ more) msg := by
  obtain ⟨hm, r, line, hr, hline⟩ := h
  refine ⟨hm, r, line, ?_, hline⟩
  rw [List.getElem?_append_left (List.getElem?_eq_some_iff.1 hr).1]
  exact hr

theorem Carries.lt {made : List MadeTask} {msg : MessageItem} (h : Carries made msg) :
    msg.m_pdata < made.length := by
  obtain ⟨-, r, line, hr, -⟩ := h
  exact (List.getElem?_eq_some_iff.1 hr).1

theorem Carries.lineOf_append {made : List MadeTask} {msg : MessageItem} (h : Carries made msg)
    (more : List MadeTask) : lineOf (made ++ more) msg = lineOf made msg := by
  rw [lineOf, lineOf, List.getElem?_append_left h.lt]

theorem Carries.threadOf_append {made : List MadeTask} {msg : MessageItem} (h : Carries made msg)
    (more : List MadeTask) : threadOf (made ++ more) msg = threadOf made msg := by
  rw [threadOf, threadOf, List.getElem?_append_left h.lt]

/-- A task that is put into the queue is printed as its call would be at once. -/
theorem carries_new (p : Nat) {call : LogCall} {m_msg_id m_first_param m_second_param : Int} {task : LogTask}
    (h : call.action .ASYNC = some (.put m_msg_id m_first_param m_second_param task))
    (made : List MadeTask) :
    Carries (made ++ [⟨p, call, task⟩]) ⟨m_msg_id, m_first_param, m_second_param, made.length⟩ := by
  have hsame := AppLogger.async_writes_sync call.msgtype call.filename call.line call.text call.stack
  have haction : ((AppLogger.mk .ASYNC).log call.msgtype call.filename call.line call.text call.stack).value =
      some (.put m_msg_id m_first_param m_second_param task) := h
  rw [haction] at hsame
  by_cases hnone : call.text.length = 0 ∨ ¬ call.text.length < 2 ^ 31
  · rw [AppLogger.log_dropped _ _ _ _ _ hnone] at haction
    cases haction
  · rw [AppLogger.log_put rfl _ _ _ _ (by omega) (by omega)] at haction
    cases haction
    refine ⟨rfl, ⟨p, call, _⟩, _, List.getElem?_concat_length, rfl, hsame.symm⟩

/-! ## What is in the queue -/

/-- The messages of producers, and those that have been accepted, have tasks. Those of a thread were accepted in the
order of its calls, and the one it has in hand is the last. -/
structure Known (made : List MadeTask) (producers : Nat → Producer) (accepted : List MessageItem) : Prop where
  locking : ∀ p msg, producers p = .locking msg → Carries made msg ∧ threadOf made msg = some p
  taken : ∀ msg ∈ accepted, Carries made msg
  last : ∀ p msg, producers p = .locking msg → ∀ a ∈ accepted, threadOf made a = some p → a.m_pdata < msg.m_pdata
  ordered : accepted.Pairwise fun a b => threadOf made a = threadOf made b → a.m_pdata < b.m_pdata

section
variable {made : List MadeTask} {producers : Nat → Producer} {accepted : List MessageItem}

theorem Known.append (h : Known made producers accepted) (more : List MadeTask) :
    Known (made ++ more) producers accepted where
  locking p msg hp := by
    obtain ⟨hc, ht⟩ := h.locking p msg hp
    exact ⟨hc.append more, (hc.threadOf_append more).trans ht⟩
  taken msg hm := (h.taken msg hm).append more
  last p msg hp a ha ht := h.last p msg hp a ha (((h.taken a ha).threadOf_append more).symm.trans ht)
  ordered := by
    refine h.ordered.imp_of_mem ?_
    intro a b ha hb hab ht
    rw [(h.taken a ha).threadOf_append, (h.taken b hb).threadOf_append] at ht
    exact hab ht

/-- Where a producer is that holds the mutex next, after another has moved on. -/
theorem locking_update {p q : Nat} {state : Producer} {msg : MessageItem} (hstate : ∀ msg, state ≠ .locking msg)
    (h : Function.update producers p state q = .locking msg) : q ≠ p ∧ producers q = .locking msg := by
  by_cases hq : q = p
  · rw [hq, Function.update_self] at h
    exact absurd h (hstate msg)
  · rw [Function.update_of_ne hq] at h
    exact ⟨hq, h⟩

/-- A producer goes on without its message. -/
theorem Known.release (h : Known made producers accepted) (p : Nat) {state : Producer}
    (hstate : ∀ msg, state ≠ .locking msg) : Known made (Function.update producers p state) accepted where
  locking q msg hq := h.locking q msg (locking_update hstate hq).2
  taken := h.taken
  last q msg hq := h.last q msg (locking_update hstate hq).2
  ordered := h.ordered

/-- A producer's message is pushed. -/
theorem Known.push (h : Known made producers accepted) {p : Nat} {msg : MessageItem}
    (hp : producers p = .locking msg) (state : Producer) (hstate : ∀ msg, state ≠ .locking msg) :
    Known made (Function.update producers p state) (accepted ++ [msg]) where
  locking := (h.release p hstate).locking
  taken := by
    intro m hm
    rcases List.mem_append.1 hm with hm | hm
    · exact h.taken m hm
    · rw [List.mem_singleton.1 hm]
      exact (h.locking p msg hp).1
  last := by
    intro q m hq a ha ht
    obtain ⟨hne, hq⟩ := locking_update hstate hq
    rcases List.mem_append.1 ha with ha | ha
    · exact h.last q m hq a ha ht
    · -- The message is of another thread.
      rw [List.mem_singleton.1 ha, (h.locking p msg hp).2] at ht
      exact absurd (Option.some.inj ht).symm hne
  ordered := by
    refine List.pairwise_append.2 ⟨h.ordered, List.pairwise_singleton _ _, ?_⟩
    intro a ha b hb ht
    rw [List.mem_singleton.1 hb] at ht ⊢
    exact h.last p msg hp a ha (ht.trans (h.locking p msg hp).2)

/-- A call begins with a task of its own. -/
theorem Known.enter (h : Known made producers accepted) (p : Nat) {call : LogCall} {task : LogTask}
    {msg : MessageItem} (hmsg : Carries (made ++ [⟨p, call, task⟩]) msg) (hnew : msg.m_pdata = made.length) :
    Known (made ++ [⟨p, call, task⟩]) (Function.update producers p (.locking msg)) accepted := by
  have hmore := h.append [⟨p, call, task⟩]
  have hthread : threadOf (made ++ [⟨p, call, task⟩]) msg = some p := by
    rw [threadOf, hnew, List.getElem?_concat_length]
    rfl
  have hcases : ∀ q m, Function.update producers p (.locking msg) q = .locking m →
      (q = p ∧ m = msg) ∨ producers q = .locking m := by
    intro q m hq
    by_cases hqp : q = p
    · rw [hqp, Function.update_self] at hq
      cases hq
      exact .inl ⟨hqp, rfl⟩
    · rw [Function.update_of_ne hqp] at hq
      exact .inr hq
  exact {
    locking := by
      intro q m hq
      rcases hcases q m hq with ⟨rfl, rfl⟩ | hold
      · exact ⟨hmsg, hthread⟩
      · exact hmore.locking q m hold
    taken := hmore.taken
    last := by
      intro q m hq a ha ht
      rcases hcases q m hq with ⟨-, rfl⟩ | hold
      · rw [hnew]
        exact (h.taken a ha).lt
      · exact hmore.last q m hold a ha ht
    ordered := hmore.ordered }

end

/-- The tasks of a queue. -/
def Tasked (q : State) (made : List MadeTask) : Prop :=
  Known made q.producers (q.accepted.filter isMessage)

theorem filter_push {q : State} {made : List MadeTask} (h : Tasked q made) {p : Nat}
    {msg : MessageItem} (hp : q.producers p = .locking msg) :
    (q.accepted ++ [msg]).filter isMessage = q.accepted.filter isMessage ++ [msg] := by
  rw [List.filter_append, List.filter_cons_of_pos (h.locking p msg hp).1.1, List.filter_nil]

/-- The steps behind a call keep the tasks. -/
theorem tasked_step {q : State} {made : List MadeTask} (h : Tasked q made) {l : Label}
    (hl : putMessage l = none) : Tasked (SimpleMessageQueue.step q l).1 made := by
  rcases step_cases q l with he | ⟨t, he, ht⟩
  · rw [he]
    exact h
  rw [he]
  cases ht with
  | admits p msg => cases hl
  | rejects p msg => cases hl
  | overflows p msg hp => exact h.release p (by simp)
  | supplies p msg hp =>
    have hpushed := h.push hp (.signalling msg) (by simp)
    rw [← filter_push h hp] at hpushed
    exact hpushed
  | lengthens p msg hp =>
    have hpushed := h.push hp .idle (by simp)
    rw [← filter_push h hp] at hpushed
    exact hpushed
  | signals p msg hp => exact h.release p (by simp)
  | destroys p msg hp => exact h.release p (by simp)
  | exits o ho =>
    have hexit : isMessage ⟨EXIT_MSG_ID, 0, 0, 0⟩ = false := rfl
    have hsame : (q.push_back ⟨EXIT_MSG_ID, 0, 0, 0⟩).accepted.filter isMessage = q.accepted.filter isMessage := by
      rw [State.push_back, List.filter_append, List.filter_cons_of_neg (by simp [hexit]), List.filter_nil,
        List.append_nil]
    unfold Tasked
    dsimp only
    rw [hsame]
    exact h
  | _ => exact h

/-- Which messages have been handled. -/
theorem handled_step (q : State) (l : Label) :
    (SimpleMessageQueue.step q l).1.handled =
      q.handled ++ (handling l q.consumer).toList.filter isMessage := by
  by_cases hl : l = .handle
  · subst hl
    cases hc : q.consumer with
    | handling msg =>
      have hrun : next q .handle = next_run q .handle := by simp [next, next_put, next_owner]
      rw [SimpleMessageQueue.step, hrun, next_run, hc]
      dsimp only
      split_ifs with hm
      · simp [handling, isMessage, hm]
      · simp [handling, isMessage, hm]
    | _ => simp [SimpleMessageQueue.step, next, next_put, next_run, next_owner, hc, handling]
  · have hnone : handling l q.consumer = none := by
      cases l <;> first | rfl | exact absurd rfl hl
    rw [hnone, Option.toList_none, List.filter_nil, List.append_nil]
    rcases step_cases q l with he | ⟨t, he, ht⟩
    · rw [he]
    · rw [he]
      cases ht with
      | handles => exact absurd rfl hl
      | _ => rfl

/-! ## What is printed -/

/-- What has been printed in a run. -/
def prints (h : List (LoggingStep × Option LogWrite)) : List LogWrite := h.filterMap Prod.snd

theorem prints_append (h : List (LoggingStep × Option LogWrite)) (i : LoggingStep) (w : Option LogWrite) :
    prints (h ++ [(i, w)]) = prints h ++ w.toList := by
  rw [prints, List.filterMap_append]
  cases w <;> rfl

/-- What holds after the steps `h`. -/
structure Sound (config : LogConfig) (disk : Bytes → Option Bytes) (s : Logging)
    (h : List (LoggingStep × Option LogWrite)) : Prop where
  phase : Phase s.queue
  ledger : Ledger s.queue
  tasked : Tasked s.queue s.made
  lines : (prints h).map LogWrite.line = s.queue.handled.filterMap (lineOf s.made)
  files : s.files = final config.step { disk := disk } (prints h)
  calls : (s.made.map fun m => (m.thread, m.call)).Sublist (h.filterMap fun r => r.1.call)

variable {config : LogConfig} {disk : Bytes → Option Bytes} {s : Logging} {h : List (LoggingStep × Option LogWrite)}

theorem Sound.handled (hs : Sound config disk s h) : ∀ msg ∈ s.queue.handled, Carries s.made msg := by
  intro msg hm
  apply hs.tasked.taken msg
  rw [hs.ledger.accepted]
  simp [hm]

/-- A step that changes nothing. -/
theorem Sound.silent (hs : Sound config disk s h) (i : LoggingStep) : Sound config disk s (h ++ [(i, none)]) where
  phase := hs.phase
  ledger := hs.ledger
  tasked := hs.tasked
  lines := by rw [prints_append, Option.toList_none, List.append_nil, hs.lines]
  files := by rw [prints_append, Option.toList_none, List.append_nil, hs.files]
  calls := by
    rw [List.filterMap_append]
    exact hs.calls.trans (List.sublist_append_left _ _)

/-- A call makes a task. -/
theorem Sound.begins (hs : Sound config disk s h) {p : Nat} {call : LogCall} {task : LogTask} {msg : MessageItem}
    {q : State} (hstep : SimpleMessageQueue.step s.queue (.put p msg) = (q, true))
    (htasked : Tasked q (s.made ++ [⟨p, call, task⟩])) (hhandled : q.handled = s.queue.handled) :
    Sound config disk { s with queue := q, made := s.made ++ [⟨p, call, task⟩] } (h ++ [(.log p call, none)]) where
  phase := by
    have hnext := hs.phase.step (.put p msg)
    rwa [hstep] at hnext
  ledger := by
    have hnext := hs.ledger.step hs.phase (.put p msg)
    rwa [hstep] at hnext
  tasked := htasked
  lines := by
    rw [prints_append, Option.toList_none, List.append_nil, hs.lines, hhandled]
    exact List.filterMap_congr fun m hm => ((hs.handled m hm).lineOf_append _).symm
  files := by rw [prints_append, Option.toList_none, List.append_nil, hs.files]
  calls := by
    rw [List.map_append, List.filterMap_append]
    exact hs.calls.append (List.Sublist.refl _)

theorem Sound.log (hs : Sound config disk s h) (p : Nat) (call : LogCall) :
    Sound config disk (step config s (.log p call)).1
      (h ++ [(.log p call, (step config s (.log p call)).2)]) := by
  cases haction : call.action .ASYNC with
  | none =>
    simp only [step, haction]
    exact hs.silent _
  | some action =>
    cases action with
    | written line =>
      simp only [step, haction]
      exact hs.silent _
    | put m_msg_id m_first_param m_second_param task =>
      have hnew := carries_new p haction s.made
      rcases step_cases s.queue (.put p ⟨m_msg_id, m_first_param, m_second_param, s.made.length⟩) with
        he | ⟨t, he, ht⟩
      · simp only [step, haction, he]
        exact hs.silent _
      · simp only [step, haction, he, if_true]
        cases ht with
        | admits => exact hs.begins he (hs.tasked.enter p hnew rfl) rfl
        | rejects => exact hs.begins he ((hs.tasked.append _).release p (by simp)) rfl
        | advances _ _ hl => simp at hl

theorem handling_some {l : Label} {c : Consumer} {msg : MessageItem} (h : handling l c = some msg) :
    c = .handling msg := by
  unfold handling at h
  split at h
  · cases h
    rfl
  · cases h

/-- What `handle_msg` prints is the line of the call whose message it gets. -/
theorem Sound.handles (hs : Sound config disk s h) {l : Label} {msg : MessageItem}
    (hl : handling l s.queue.consumer = some msg) (moment : LogMoment) :
    (s.write msg moment).toList.map LogWrite.line = ([msg].filter isMessage).filterMap (lineOf s.made) := by
  cases hm : isMessage msg with
  | true =>
    have hheld : held s.queue.consumer = [msg] := by
      rw [handling_some hl, held, List.filter_cons_of_pos hm, List.filter_nil]
    have hin : msg ∈ s.queue.accepted.filter isMessage := by
      rw [hs.ledger.accepted, hheld]
      simp
    obtain ⟨-, r, line, hr, hline, hcall⟩ := hs.tasked.taken msg hin
    simp [write, hr, hline, hm, lineOf, hcall]
  | false =>
    have hid : msg.m_msg_id ≠ MSG_LOG_WRITE_TASK := by
      intro he
      rw [isMessage, he] at hm
      exact absurd hm (by decide)
    have hnone : s.write msg moment = none := by
      unfold write
      cases s.made[msg.m_pdata]? with
      | none => rfl
      | some r => simp [AppLogger.handle_msg, hid]
    rw [hnone, List.filter_cons_of_neg (by simp [hm]), List.filter_nil]
    rfl

theorem Sound.queue (hs : Sound config disk s h) {l : Label} (hl : putMessage l = none) (moment : LogMoment) :
    Sound config disk (step config s (.queue l hl moment)).1
      (h ++ [(.queue l hl moment, (step config s (.queue l hl moment)).2)]) where
  phase := hs.phase.step l
  ledger := hs.ledger.step hs.phase l
  tasked := tasked_step hs.tasked hl
  lines := by
    rw [prints_append, List.map_append, hs.lines]
    refine Eq.trans ?_ (congrArg (List.filterMap (lineOf s.made)) (handled_step s.queue l)).symm
    rw [List.filterMap_append]
    refine congrArg (s.queue.handled.filterMap (lineOf s.made) ++ ·) ?_
    simp only [step]
    cases hh : handling l s.queue.consumer with
    | none => rfl
    | some msg => exact hs.handles hh moment
  files := by
    rw [prints_append, final_append, ← hs.files]
    simp only [step]
    cases (handling l s.queue.consumer).bind (s.write · moment) <;> rfl
  calls := by
    rw [List.filterMap_append]
    exact hs.calls.trans (List.sublist_append_left _ _)

/-- Threads log and the queue is started and stopped. Whatever the order of the steps is: the files are those of what
has been printed; the calls `put` has taken are, in its order, those whose lines have been printed, and those whose
messages are in the hand of the thread, destroyed, or in the deque; each has a line, the one it would print at once;
and no call is taken twice, or before an earlier one of its thread. -/
theorem calls_logged (config : LogConfig) (disk : Bytes → Option Bytes) (steps : List LoggingStep) :
    let s := final (step config) (init disk) steps
    let history := trace (step config) (init disk) steps
    let taken := s.queue.accepted.filter isMessage
    let left := held s.queue.consumer ++ s.queue.cleared ++ s.queue.m_msg_queue.filter isMessage
    s.files = final config.step { disk := disk } (prints history) ∧
      taken.filterMap (lineOf s.made) = (prints history).map LogWrite.line ++ left.filterMap (lineOf s.made) ∧
      (∀ msg ∈ taken, (lineOf s.made msg).isSome = true) ∧
      (taken.Pairwise fun a b => threadOf s.made a = threadOf s.made b → a.m_pdata < b.m_pdata) ∧
      (s.made.map fun m => (m.thread, m.call)).Sublist (history.filterMap fun r => r.1.call) := by
  have hstart : Sound config disk (init disk) [] :=
    ⟨⟨rfl, rfl, rfl⟩, ⟨rfl, fun _ => rfl, rfl⟩, ⟨by simp [init, new], by simp [init, new], by simp [init, new],
      List.Pairwise.nil⟩, rfl, rfl, List.Sublist.refl _⟩
  have hs := run_rule (step config) (Sound config disk)
    (fun s h i hs => by
      cases i with
      | log p call => exact hs.log p call
      | queue l hl moment => exact hs.queue hl moment) hstart steps
  refine ⟨hs.files, ?_, ?_, hs.tasked.ordered, hs.calls⟩
  · rw [hs.lines, ← List.filterMap_append, hs.ledger.accepted, ← List.append_assoc, ← List.append_assoc]
  · intro msg hm
    obtain ⟨-, r, line, hr, -, hline⟩ := hs.tasked.taken msg hm
    simp [lineOf, hr, hline]

/-- Two threads log, and the thread of the queue prints the line of the first. -/
example :
    let noon : LogMoment := ⟨⟨125, 0, 31⟩, ascii "[25-01-31 12:00:00]", 7, true⟩
    (prints (trace (step sampleLog) (init fun _ => none)
      [.queue .start rfl noon, .queue (.create true) rfl noon,
        .log 1 ⟨ascii "[I]", ascii "src/main.cpp", 7, ascii "ready", []⟩,
        .log 2 ⟨ascii "[E]", ascii "src/main.cpp", 9, ascii "lost", []⟩, .queue (.push 1) rfl noon,
        .queue (.push 2) rfl noon, .queue (.signal 1) rfl noon, .queue .test rfl noon, .queue .lock rfl noon,
        .queue .pop rfl noon, .queue .handle rfl noon])).map LogWrite.line =
      [⟨ascii "main.cpp", 7, ascii "[I]", ascii "ready"⟩] := by
  decide +kernel

end Logging

end RtcClient
