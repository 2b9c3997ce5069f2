import RtcClient.Lib.Bytes
import RtcClient.Lib.Runs
import Mathlib.Logic.Function.Basic
/-!
# The message queue

`SimpleMessageQueue` (POSIX build) as a step machine: any number of producers in
`put`, the consumer thread in `run`, and the thread that calls `start` and `stop`.
A label names the thread's next step. The mutex makes each critical section one
step, except that of `get`, which is cut before `front`/`pop_front` so that the
state in which the pop is about to execute can be named. A signal wakes the
consumer if it is waiting and is lost otherwise.
-/

namespace RtcClient

open Lib

structure MessageItem where
  m_msg_id : Int
  m_first_param : Int
  m_second_param : Int
  m_pdata : Nat
deriving DecidableEq, Repr

/-- `const int EXIT_MSG_ID = 0xFFFFFFFF`. -/
def EXIT_MSG_ID : Int := int32 0xFFFFFFFF

namespace SimpleMessageQueue

/-! ## The threads -/

/-- Where a producer is in `put`. -/
inductive Producer where
  | idle
  /-- Has passed the `m_is_running` test; takes the mutex next. -/
  | locking (msg : MessageItem)
  /-- Has pushed the only message and released the mutex; signals next. -/
  | signalling (msg : MessageItem)
  /-- Was refused; destroys the message next. -/
  | refused (msg : MessageItem)
deriving DecidableEq, Repr

/-- Where the consumer is in `run`. -/
inductive Consumer where
  | unborn
  /-- Tests `m_is_running` next. -/
  | testing
  /-- In `get`, takes the mutex next. -/
  | locking
  /-- In `pthread_cond_wait`. -/
  | waiting
  /-- In `pthread_cond_wait`, signalled; takes the mutex again next. -/
  | woken
  /-- In `get` with the mutex held; executes `front` and `pop_front` next. -/
  | popping
  /-- `get` has returned; handles the message next. -/
  | handling (msg : MessageItem)
  /-- Has left the loop; calls `clear_msg_queue` next. -/
  | clearing
  | done
deriving DecidableEq, Repr

/-- Where the owner is in `start` and `stop`. -/
inductive Owner where
  | fresh
  /-- In `start`, calls `pthread_create` next. -/
  | creating
  | started
  /-- In `stop`, has read `m_is_running` as true. -/
  | halting
  /-- In the `put` of the exit message, takes the mutex next. -/
  | locking
  | signalling
  | joining
  | stopped
deriving DecidableEq, Repr

/-- The queue, its mutex, its threads, and ghost logs of what happened to messages. -/
structure State where
  m_initialized : Bool := false
  m_max_queue_length : Int
  m_is_running : Bool := false
  m_msg_queue : List MessageItem := []
  producers : Nat → Producer := fun _ => .idle
  consumer : Consumer := .unborn
  owner : Owner := .fresh
  /-- Messages pushed, the exit message included. -/
  accepted : List MessageItem := []
  /-- Results of the producers' `put` calls. -/
  returned : List (MessageItem × Bool) := []
  /-- Messages given to `handle_msg`. -/
  handled : List MessageItem := []
  /-- Messages `put` destroyed. -/
  dropped : List MessageItem := []
  /-- Messages `clear_msg_queue` destroyed. -/
  cleared : List MessageItem := []

/-- The constructor. -/
def new (max_count : Int) : State := { m_max_queue_length := max_count }

inductive Label where
  | start
  | create (ok : Bool)
  | put (p : Nat) (msg : MessageItem)
  | push (p : Nat)
  | signal (p : Nat)
  | destroy (p : Nat)
  | test
  | lock
  | relock
  | pop
  | handle
  | clear_msg_queue
  | stop
  | halt
  | push_exit
  | signal_exit
  | join
deriving DecidableEq, Repr

/-! ## Steps -/

namespace State

/-- Between two steps only the consumer can hold the mutex, right before its pop. -/
def m_mutex (s : State) : Bool := s.consumer == .popping

def setProducer (s : State) (p : Nat) (q : Producer) : State :=
  { s with producers := Function.update s.producers p q }

/-- `pthread_cond_signal`. -/
def cond_signal (s : State) : State :=
  if s.consumer = .waiting then { s with consumer := .woken } else s

def is_full (s : State) : Bool := !decide (int32 s.m_msg_queue.length < s.m_max_queue_length)

def push_back (s : State) (msg : MessageItem) : State :=
  { s with m_msg_queue := s.m_msg_queue ++ [msg], accepted := s.accepted ++ [msg] }

/-- The producer's `put` returns. -/
def finish_put (s : State) (p : Nat) (msg : MessageItem) (result : Bool) : State :=
  { s.setProducer p .idle with returned := s.returned ++ [(msg, result)] }

/-- The critical section of a producer's `put`. -/
def put_locked (s : State) (p : Nat) (msg : MessageItem) : State :=
  if s.is_full then s.setProducer p (.refused msg)
  else
    let s := s.push_back msg
    if s.m_msg_queue.length = 1 then s.setProducer p (.signalling msg) else s.finish_put p msg true

/-- The critical section of the `put` in `stop`. -/
def put_exit_locked (s : State) : State :=
  if s.is_full then { s with owner := .joining }
  else
    let s := s.push_back ⟨EXIT_MSG_ID, 0, 0, 0⟩
    if s.m_msg_queue.length = 1 then { s with owner := .signalling } else { s with owner := .joining }

end State

/-- The steps of the producers. -/
def next_put (s : State) : Label → Option State
  | .put p msg =>
    match s.producers p with
    | .idle =>
      if !s.m_is_running && msg.m_msg_id != EXIT_MSG_ID then some (s.setProducer p (.refused msg))
      else some (s.setProducer p (.locking msg))
    | _ => none
  | .push p =>
    match s.producers p with
    | .locking msg => if s.m_mutex then none else some (s.put_locked p msg)
    | _ => none
  | .signal p =>
    match s.producers p with
    | .signalling msg => some (s.cond_signal.finish_put p msg true)
    | _ => none
  | .destroy p =>
    match s.producers p with
    | .refused msg =>
      let s := s.finish_put p msg false
      some (if msg.m_msg_id != EXIT_MSG_ID then { s with dropped := s.dropped ++ [msg] } else s)
    | _ => none
  | _ => none

/-- The steps of the consumer. -/
def next_run (s : State) : Label → Option State
  | .test =>
    match s.consumer with
    | .testing => some { s with consumer := if s.m_is_running then .locking else .clearing }
    | _ => none
  | .lock =>
    match s.consumer, s.m_mutex with
    | .locking, false =>
      -- `pthread_cond_wait` releases the mutex it was called with
      if s.m_msg_queue.isEmpty then some { s with consumer := .waiting }
      else some { s with consumer := .popping }
    | _, _ => none
  | .relock =>
    match s.consumer, s.m_mutex with
    | .woken, false => some { s with consumer := .popping }
    | _, _ => none
  | .pop =>
    match s.consumer, s.m_msg_queue with
    | .popping, msg :: rest => some { s with consumer := .handling msg, m_msg_queue := rest }
    -- `front` of an empty deque: the program has no defined next state
    | _, _ => none
  | .handle =>
    match s.consumer with
    | .handling msg =>
      let s := { s with consumer := .testing }
      some (if msg.m_msg_id != EXIT_MSG_ID then { s with handled := s.handled ++ [msg] } else s)
    | _ => none
  | .clear_msg_queue =>
    match s.consumer, s.m_mutex with
    | .clearing, false =>
      some { s with
        consumer := .done
        m_msg_queue := []
        cleared := s.cleared ++ s.m_msg_queue.filter (·.m_msg_id != EXIT_MSG_ID) }
    | _, _ => none
  | _ => none

/-- The steps of the thread that starts and stops the queue. -/
def next_owner (s : State) : Label → Option State
  | .start =>
    match s.owner with
    | .fresh => some { s with m_is_running := true, owner := .creating }
    | _ => none
  | .create ok =>
    match s.owner, ok with
    | .creating, true => some { s with m_initialized := true, consumer := .testing, owner := .started }
    | .creating, false => some { s with m_is_running := false, m_initialized := false, owner := .started }
    | _, _ => none
  | .stop =>
    match s.owner with
    | .started => some { s with owner := if s.m_is_running then .halting else .stopped }
    | _ => none
  | .halt =>
    match s.owner with
    | .halting => some { s with m_is_running := false, owner := .locking }
    | _ => none
  | .push_exit =>
    match s.owner, s.m_mutex with
    | .locking, false => some s.put_exit_locked
    | _, _ => none
  | .signal_exit =>
    match s.owner with
    | .signalling => some { s.cond_signal with owner := .joining }
    | _ => none
  | .join =>
    match s.owner with
    | .joining => if s.m_initialized && s.consumer != .done then none else some { s with owner := .stopped }
    | _ => none
  | _ => none

/-- The step a label names, if its thread can take it. -/
def next (s : State) (l : Label) : Option State :=
  (next_put s l).or ((next_run s l).or (next_owner s l))

/-- A label whose thread cannot take the step leaves the state as it is. -/
def step (s : State) (l : Label) : State × Bool :=
  match next s l with
  | some t => (t, true)
  | none => (s, false)

/-! ## What a step does -/

def isMessage (msg : MessageItem) : Bool := msg.m_msg_id != EXIT_MSG_ID

/-- The non-exit message a consumer holds. -/
def held : Consumer → List MessageItem
  | .handling msg => [msg].filter isMessage
  | _ => []

/-- The consumer after a signal. -/
def wake : Consumer → Consumer
  | .waiting => .woken
  | c => c

/-- The consumer is in `run` with no message in hand. -/
def Looping (c : Consumer) : Prop := held c = [] ∧ c ≠ .unborn ∧ c ≠ .done

/-- The step `l` taken in `s` ends in the given state. -/
inductive Effect (s : State) : Label → State → Prop where
  | admits (p : Nat) (msg : MessageItem) (hp : s.producers p = .idle) :
      Effect s (.put p msg) (s.setProducer p (.locking msg))
  | rejects (p : Nat) (msg : MessageItem) (hp : s.producers p = .idle) (hr : s.m_is_running = false)
      (hm : isMessage msg = true) : Effect s (.put p msg) (s.setProducer p (.refused msg))
  | overflows (p : Nat) (msg : MessageItem) (hp : s.producers p = .locking msg) (hf : s.is_full = true) :
      Effect s (.push p) (s.setProducer p (.refused msg))
  | supplies (p : Nat) (msg : MessageItem) (hp : s.producers p = .locking msg) (hf : s.is_full = false) :
      Effect s (.push p) ((s.push_back msg).setProducer p (.signalling msg))
  | lengthens (p : Nat) (msg : MessageItem) (hp : s.producers p = .locking msg) (hf : s.is_full = false) :
      Effect s (.push p) ((s.push_back msg).finish_put p msg true)
  | signals (p : Nat) (msg : MessageItem) (hp : s.producers p = .signalling msg) :
      Effect s (.signal p) ({ s with consumer := wake s.consumer }.finish_put p msg true)
  | destroys (p : Nat) (msg : MessageItem) (hp : s.producers p = .refused msg) :
      Effect s (.destroy p) { s.finish_put p msg false with dropped := s.dropped ++ [msg].filter isMessage }
  | advances (l : Label) (c : Consumer) (hl : l ∈ [.test, .lock, .relock]) (hs : Looping s.consumer) (hc : Looping c) :
      Effect s l { s with consumer := c }
  | pops (msg : MessageItem) (rest : List MessageItem) (hc : s.consumer = .popping) (hq : s.m_msg_queue = msg :: rest) :
      Effect s .pop { s with consumer := .handling msg, m_msg_queue := rest }
  | handles (msg : MessageItem) (hc : s.consumer = .handling msg) :
      Effect s .handle { s with consumer := .testing, handled := s.handled ++ [msg].filter isMessage }
  | clears (hc : s.consumer = .clearing) :
      Effect s .clear_msg_queue { s with
        consumer := .done
        m_msg_queue := []
        cleared := s.cleared ++ s.m_msg_queue.filter isMessage }
  | starts (ho : s.owner = .fresh) : Effect s .start { s with m_is_running := true, owner := .creating }
  | creates (ho : s.owner = .creating) :
      Effect s (.create true) { s with m_initialized := true, consumer := .testing, owner := .started }
  | fails (ho : s.owner = .creating) :
      Effect s (.create false) { s with m_is_running := false, m_initialized := false, owner := .started }
  | stops (ho : s.owner = .started) :
      Effect s .stop { s with owner := if s.m_is_running then .halting else .stopped }
  | halts (ho : s.owner = .halting) : Effect s .halt { s with m_is_running := false, owner := .locking }
  | skips (ho : s.owner = .locking) (hf : s.is_full = true) : Effect s .push_exit { s with owner := .joining }
  | exits (o : Owner) (ho : s.owner = .locking) (ho' : o = .signalling ∨ o = .joining) (hf : s.is_full = false) :
      Effect s .push_exit { s.push_back ⟨EXIT_MSG_ID, 0, 0, 0⟩ with owner := o }
  | rings (ho : s.owner = .signalling) : Effect s .signal_exit { s with consumer := wake s.consumer, owner := .joining }
  | joins (ho : s.owner = .joining) (hc : s.m_initialized = true → s.consumer = .done) :
      Effect s .join { s with owner := .stopped }

theorem filter_isMessage (msg : MessageItem) (l : List MessageItem) :
    (if msg.m_msg_id != EXIT_MSG_ID then l ++ [msg] else l) = l ++ [msg].filter isMessage := by
  cases h : isMessage msg
  · have h' : (msg.m_msg_id != EXIT_MSG_ID) = false := h
    simp [h, h']
  · have h' : (msg.m_msg_id != EXIT_MSG_ID) = true := h
    simp [h, h']

theorem wake_of_ne {c : Consumer} (h : c ≠ .waiting) : wake c = c := by
  unfold wake
  split
  · exact absurd rfl h
  · rfl

theorem cond_signal_eq (s : State) : s.cond_signal = { s with consumer := wake s.consumer } := by
  unfold State.cond_signal
  split
  · rename_i hc
    rw [hc]
    rfl
  · rename_i hc
    rw [wake_of_ne hc]

theorem next_put_effect {s t : State} {l : Label} (h : next_put s l = some t) : Effect s l t := by
  cases l with
  | put p msg =>
    simp only [next_put] at h
    split at h
    · rename_i hp
      split at h
      · rename_i hr
        cases h
        -- stopped, and not the exit message: refused before the lock
        have hr' : s.m_is_running = false ∧ isMessage msg = true := by simpa [isMessage] using hr
        exact .rejects p msg hp hr'.1 hr'.2
      · cases h
        exact .admits p msg hp
    · cases h
  | push p =>
    simp only [next_put] at h
    split at h
    · rename_i msg hp
      split at h
      · cases h
      · cases h
        unfold State.put_locked
        split
        · exact .overflows p msg hp ‹_›
        · rename_i hf
          have hf' : s.is_full = false := by simpa using hf
          dsimp only
          split
          · exact .supplies p msg hp hf'
          · exact .lengthens p msg hp hf'
    · cases h
  | signal p =>
    simp only [next_put] at h
    split at h
    · cases h
      rw [cond_signal_eq]
      exact .signals p _ ‹_›
    · cases h
  | destroy p =>
    simp only [next_put] at h
    split at h
    · rename_i msg hp
      cases h
      -- only a message that is not the exit message is counted as dropped
      have hd := Effect.destroys p msg hp
      rw [← filter_isMessage] at hd
      split at hd <;> rename_i hm
      · rw [if_pos hm]
        exact hd
      · rw [if_neg hm]
        exact hd
    · cases h
  | _ => cases h

theorem next_run_effect {s t : State} {l : Label} (h : next_run s l = some t) : Effect s l t := by
  cases l with
  | test =>
    simp only [next_run] at h
    split at h
    · rename_i hc
      cases h
      refine .advances _ _ (by simp) (by simp [Looping, hc, held]) ?_
      split <;> simp [Looping, held]
    · cases h
  | lock =>
    simp only [next_run] at h
    split at h
    · rename_i hc _
      split at h <;> cases h <;> exact .advances _ _ (by simp) (by simp [Looping, hc, held]) (by simp [Looping, held])
    · cases h
  | relock =>
    simp only [next_run] at h
    split at h
    · rename_i hc _
      cases h
      exact .advances _ _ (by simp) (by simp [Looping, hc, held]) (by simp [Looping, held])
    · cases h
  | pop =>
    simp only [next_run] at h
    split at h
    · cases h
      exact .pops _ _ ‹_› ‹_›
    · cases h
  | handle =>
    simp only [next_run] at h
    split at h
    · rename_i msg hc
      cases h
      have hd := Effect.handles msg hc
      rw [← filter_isMessage] at hd
      split at hd <;> rename_i hm
      · rw [if_pos hm]
        exact hd
      · rw [if_neg hm]
        exact hd
    · cases h
  | clear_msg_queue =>
    simp only [next_run] at h
    split at h
    · cases h
      exact .clears ‹_›
    · cases h
  | _ => cases h

theorem next_owner_effect {s t : State} {l : Label} (h : next_owner s l = some t) : Effect s l t := by
  cases l with
  | start =>
    simp only [next_owner] at h
    split at h
    · cases h
      exact .starts ‹_›
    · cases h
  | create ok =>
    simp only [next_owner] at h
    split at h
    · cases h
      exact .creates ‹_›
    · cases h
      exact .fails ‹_›
    · cases h
  | stop =>
    simp only [next_owner] at h
    split at h
    · cases h
      exact .stops ‹_›
    · cases h
  | halt =>
    simp only [next_owner] at h
    split at h
    · cases h
      exact .halts ‹_›
    · cases h
  | push_exit =>
    simp only [next_owner] at h
    split at h
    · cases h
      unfold State.put_exit_locked
      split
      · exact .skips ‹_› ‹_›
      · rename_i ho _ hf
        have hf' : s.is_full = false := by simpa using hf
        dsimp only
        split
        · exact .exits _ ho (.inl rfl) hf'
        · exact .exits _ ho (.inr rfl) hf'
    · cases h
  | signal_exit =>
    simp only [next_owner] at h
    split at h
    · cases h
      rw [cond_signal_eq]
      exact .rings ‹_›
    · cases h
  | join =>
    simp only [next_owner] at h
    split at h
    · split at h
      · cases h
      · rename_i ho hj
        cases h
        exact .joins ho (by simpa using hj)
    · cases h
  | _ => cases h

theorem next_effect {s t : State} {l : Label} (h : next s l = some t) : Effect s l t := by
  unfold next at h
  rcases Option.or_eq_some_iff.1 h with h | ⟨-, h⟩
  · exact next_put_effect h
  rcases Option.or_eq_some_iff.1 h with h | ⟨-, h⟩
  · exact next_run_effect h
  · exact next_owner_effect h

/-- A step is not taken, or it has one of the effects. -/
theorem step_cases (s : State) (l : Label) : step s l = (s, false) ∨ ∃ t, step s l = (t, true) ∧ Effect s l t := by
  unfold step
  split
  · exact .inr ⟨_, rfl, next_effect ‹_›⟩
  · exact .inl rfl

/-! ## What a step does to the consumer and the deque -/

/-- The thread of the label is about to call `pthread_cond_signal`. -/
def signals (s : State) : Label → Bool
  | .signal p =>
    match s.producers p with
    | .signalling _ => true
    | _ => false
  | .signal_exit => s.owner == .signalling
  | _ => false

/-- The consumer and the deque after the step `l` in the state `s`. -/
inductive Moves (s : State) (l : Label) : Consumer → List MessageItem → Prop where
  | stays : Moves s l s.consumer s.m_msg_queue
  | pushes (msg : MessageItem) : Moves s l s.consumer (s.m_msg_queue ++ [msg])
  | wakes (hs : signals s l = true) (hc : s.consumer = .waiting) : Moves s l .woken s.m_msg_queue
  | creates (ho : s.owner = .creating) : Moves s l .testing s.m_msg_queue
  | enters (hc : s.consumer = .testing) : Moves s l .locking s.m_msg_queue
  | leaves (hc : s.consumer = .testing) : Moves s l .clearing s.m_msg_queue
  | waits (hc : s.consumer = .locking) (hq : s.m_msg_queue = []) : Moves s l .waiting s.m_msg_queue
  | locks (hc : s.consumer = .locking) (hq : s.m_msg_queue ≠ []) : Moves s l .popping s.m_msg_queue
  | relocks (hc : s.consumer = .woken) : Moves s l .popping s.m_msg_queue
  | pops (hc : s.consumer = .popping) (msg : MessageItem) (rest : List MessageItem)
      (hq : s.m_msg_queue = msg :: rest) : Moves s l (.handling msg) rest
  | handles (msg : MessageItem) (hc : s.consumer = .handling msg) : Moves s l .testing s.m_msg_queue
  | clears (hc : s.consumer = .clearing) : Moves s l .done []

theorem wake_moves {s : State} {l : Label} (h : signals s l = true) : Moves s l (wake s.consumer) s.m_msg_queue := by
  by_cases hc : s.consumer = .waiting
  · rw [hc]
    exact .wakes h hc
  · rw [wake_of_ne hc]
    exact .stays

/-- The steps on the way to the pop, which look at the deque. -/
theorem loop_moves {s t : State} {l : Label} (hl : l ∈ [.test, .lock, .relock]) (h : next_run s l = some t) :
    Moves s l t.consumer t.m_msg_queue := by
  cases l with
  | test =>
    simp only [next_run] at h
    split at h
    · cases h
      dsimp only
      split
      · exact .enters ‹_›
      · exact .leaves ‹_›
    · cases h
  | lock =>
    simp only [next_run] at h
    split at h
    · rename_i hc hm
      split at h <;> rename_i hq <;> cases h
      · exact .waits hc (List.isEmpty_iff.1 hq)
      · exact .locks hc (fun he => hq (List.isEmpty_iff.2 he))
    · cases h
  | relock =>
    simp only [next_run] at h
    split at h
    · cases h
      exact .relocks ‹_›
    · cases h
  | _ => simp at hl

theorem Effect.moves {s t : State} {l : Label} (h : Effect s l t) (hl : l ∉ [.test, .lock, .relock]) :
    Moves s l t.consumer t.m_msg_queue := by
  cases h with
  | supplies p msg => exact .pushes msg
  | lengthens p msg => exact .pushes msg
  | signals p msg hp => exact wake_moves (by simp [SimpleMessageQueue.signals, hp])
  | advances _ c hl' => exact absurd hl' hl
  | pops msg rest hc hq => exact .pops hc msg rest hq
  | handles msg hc => exact .handles msg hc
  | clears hc => exact .clears hc
  | creates ho => exact .creates ho
  | exits o => exact .pushes _
  | rings ho => exact wake_moves (by simp [SimpleMessageQueue.signals, ho])
  | _ => exact .stays

theorem step_moves (s : State) (l : Label) :
    Moves s l (step s l).1.consumer (step s l).1.m_msg_queue := by
  unfold step
  split
  · rename_i t h
    by_cases hl : l ∈ [.test, .lock, .relock]
    · have hput : next_put s l = none := by
        simp only [List.mem_cons, List.not_mem_nil, or_false] at hl
        rcases hl with rfl | rfl | rfl <;> rfl
      have howner : next_owner s l = none := by
        simp only [List.mem_cons, List.not_mem_nil, or_false] at hl
        rcases hl with rfl | rfl | rfl <;> rfl
      rw [next, hput, howner, Option.none_or, Option.or_none] at h
      exact loop_moves hl h
    · exact (next_effect h).moves hl
  · exact .stays

/-! ## The pop -/

/-- If the consumer is about to execute `front` and `pop_front`, the deque has a message. -/
def PopSafe (s : State) : Prop := s.consumer = .popping → s.m_msg_queue ≠ []

instance (s : State) : Decidable (PopSafe s) := inferInstanceAs (Decidable (_ → _))

/-- The step is not a signal to a consumer that waits on an empty deque. -/
def OnTime (s : State) (l : Label) : Prop := signals s l = true → s.consumer = .waiting → s.m_msg_queue ≠ []

/-- The invariant: a consumer that will pop without looking finds a message. -/
def Supplied (s : State) : Prop := s.consumer = .woken ∨ s.consumer = .popping → s.m_msg_queue ≠ []

theorem Supplied.popSafe {s : State} (h : Supplied s) : PopSafe s := fun hc => h (.inr hc)

theorem Supplied.step {s : State} {l : Label} (h : Supplied s) (ht : OnTime s l) : Supplied (step s l).1 := by
  have hm := step_moves s l
  unfold Supplied at h ⊢
  generalize (SimpleMessageQueue.step s l).1.consumer = c at hm
  generalize (SimpleMessageQueue.step s l).1.m_msg_queue = q at hm
  cases hm with
  | stays => exact h
  | pushes msg => simp
  | wakes hs hc => exact fun _ => ht hs hc
  | locks _ hq => exact fun _ => hq
  | relocks hc => exact fun _ => h (.inl hc)
  | _ => simp

/-- A signal to the waiting consumer wakes it. -/
theorem signal_wakes {s : State} {l : Label} (hs : signals s l = true) (hc : s.consumer = .waiting) :
    (step s l).1.consumer = .woken ∧ (step s l).1.m_msg_queue = s.m_msg_queue := by
  cases l with
  | signal p =>
    simp only [signals] at hs
    split at hs
    · rename_i msg hp
      simp [step, next, next_put, hp, State.cond_signal, State.finish_put, State.setProducer, hc]
    · cases hs
  | signal_exit =>
    have ho : s.owner = .signalling := by simpa [signals] using hs
    simp [step, next, next_put, next_run, next_owner, ho, State.cond_signal, hc]
  | _ => cases hs

theorem relock_pops {s : State} (hc : s.consumer = .woken) : (step s .relock).1 = { s with consumer := .popping } := by
  have hm : s.m_mutex = false := by rw [State.m_mutex, hc]; rfl
  simp [step, next, next_put, next_run, hc, hm]

/-- A late signal makes the consumer pop the empty deque, if it is scheduled next. -/
theorem late_signal {s : State} {l : Label} (h : ¬ OnTime s l) : ¬ PopSafe (final step s [l, .relock]) := by
  unfold OnTime at h
  push Not at h
  obtain ⟨hs, hc, hq⟩ := h
  obtain ⟨hwoken, hempty⟩ := signal_wakes hs hc
  have hpop := relock_pops hwoken
  intro hsafe
  apply hsafe
  · rw [final_cons, final_cons, final_nil, hpop]
  · rw [final_cons, final_cons, final_nil, hpop]
    exact hempty.trans hq

/-- In every run without late signals `get` pops a non-empty deque, and every late
signal can be followed by a pop of the empty one. -/
theorem pop_nonempty (max_count : Int) (run : List Label) :
    (Along step OnTime (new max_count) run →
      ∀ pre post, run = pre ++ post → PopSafe (final step (new max_count) pre)) ∧
    (∀ l, ¬ OnTime (final step (new max_count) run) l →
      ¬ PopSafe (final step (new max_count) (run ++ [l, .relock]))) := by
  constructor
  · rintro h pre post rfl
    have hpre := ((along_append step OnTime _ pre post).1 h).1
    have hstart : Supplied (new max_count) := by simp [Supplied, new]
    exact (Along.rule step (fun s _ => Supplied s) (fun _ _ _ hs ht => hs.step ht) hpre (h := []) hstart).popSafe
  · intro l h
    rw [final_append]
    exact late_signal h

/-- A log record as the logger posts it. -/
def sampleItem : MessageItem := ⟨1001, 0, 0, 4096⟩

/-- A producer's message is popped and handled before the producer signals. -/
def lateRun : List Label :=
  [.start, .create true, .put 0 sampleItem, .push 0, .test, .lock, .pop, .handle, .test, .lock]

theorem pop_nonempty_first :
    (final step (new 20480) (lateRun.take 6)).consumer = .popping ∧
      PopSafe (final step (new 20480) (lateRun.take 6)) :=
  ⟨by decide, (pop_nonempty 20480 (lateRun.take 6)).1 (by simp [lateRun, Along, OnTime, signals]) _ [] (by simp)⟩

/-- The signal for the message that is already handled makes `get` pop the empty deque. -/
theorem not_pop_nonempty : ¬ ∀ run, PopSafe (final step (new 20480) run) := by
  intro h
  have := h (lateRun ++ [.signal 0, .relock])
  revert this
  decide

end SimpleMessageQueue

end RtcClient
