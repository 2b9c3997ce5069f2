import RtcClient.Common.MsgAccounts
/-!
# What wakes the consumer, and what `stop` waits for

`put` signals only for a message that is alone in the deque. That is enough: while the
consumer waits and there is a message, the signal of some thread is still to come
(`wakeup_pending`). From it and from the exit message follows that `stop` gets through:
once it has cleared `m_is_running`, the two threads have few steps left, and until the
end one of them can be taken (`stop_returns`).
-/

namespace RtcClient.SimpleMessageQueue

open Lib

/-! ## Signals to come -/

/-- While the consumer waits and the deque has a message, some thread is about to signal. -/
def Awake (s : State) : Prop := s.consumer = .waiting → s.m_msg_queue ≠ [] → ∃ l, signals s l = true

/-- Only the signal itself ends a thread's turn to signal. -/
theorem signals_step {s : State} {l l' : Label} (h : signals s l' = true) (hne : l ≠ l') :
    signals (step s l).1 l' = true := by
  rcases step_cases s l with he | ⟨t, he, ht⟩
  · rwa [he]
  rw [he]
  cases l' with
  | signal r =>
    -- a step of another producer leaves `r` alone, and `r` can take none but its signal
    have keep {p : Nat} (q : Producer) (hp : p ≠ r) : Function.update s.producers p q r = s.producers r :=
      Function.update_of_ne (Ne.symm hp) _ _
    have other {p : Nat} (hp : signals s (.signal p) = false) : p ≠ r := by
      rintro rfl
      rw [hp] at h
      cases h
    cases ht with
    | admits p msg hp | rejects p msg hp | overflows p msg hp | supplies p msg hp | lengthens p msg hp
      | destroys p msg hp =>
      simp only [signals, State.setProducer, State.push_back, State.finish_put] at h ⊢
      rw [keep _ (other (by simp [signals, hp]))]
      exact h
    | signals p msg hp =>
      simp only [signals, State.setProducer, State.finish_put] at h ⊢
      rw [keep _ (fun hpr => hne (by rw [hpr]))]
      exact h
    | _ => exact h
  | signal_exit =>
    have ho : s.owner = .signalling := by simpa [signals] using h
    cases ht with
    | rings => exact absurd rfl hne
    | starts ho' | creates ho' | fails ho' | stops ho' | halts ho' | skips ho' | exits _ ho' | joins ho' =>
      rw [ho] at ho'
      cases ho'
    | _ => exact h
  | _ => cases h

/-- The thread that puts the only message into the deque is about to signal. -/
theorem signals_grown {s : State} {l : Label} (hq : s.m_msg_queue = []) (ht : (step s l).1.m_msg_queue ≠ []) :
    ∃ l', signals (step s l).1 l' = true := by
  unfold step at ht ⊢
  split at ht
  case h_2 => exact absurd hq ht
  case h_1 t hn =>
  cases next_effect hn with
  | supplies p msg => exact ⟨.signal p, by simp [signals, State.setProducer]⟩
  | lengthens p msg hp hf =>
    -- `put` returns at once only if the message is not the only one
    have hm : s.m_mutex = false := by
      by_contra hm
      simp [next, next_put, next_run, next_owner, hp, hm] at hn
    simp [next, next_put, hp, hm, State.put_locked, hf, State.push_back, hq] at hn
    have hr := congrArg State.returned hn
    simp [State.setProducer, State.finish_put] at hr
  | exits o ho ho' hf =>
    refine ⟨.signal_exit, ?_⟩
    have hm : s.m_mutex = false := by
      by_contra hm
      simp [next, next_put, next_run, next_owner, ho, hm] at hn
    simp [next, next_put, next_run, next_owner, ho, hm, State.put_exit_locked, hf, State.push_back, hq] at hn
    rw [← hn]
    rfl
  | pops msg rest hc hq' =>
    rw [hq] at hq'
    cases hq'
  | clears => exact absurd rfl ht
  | _ => exact absurd hq ht

theorem Awake.step {s : State} (h : Awake s) (l : Label) : Awake (step s l).1 := by
  intro hw hne
  -- a consumer that goes on waiting was not signalled
  have still (hc : s.consumer = .waiting) (hq : s.m_msg_queue ≠ []) :
      ∃ l', signals (SimpleMessageQueue.step s l).1 l' = true := by
    obtain ⟨l', hl'⟩ := h hc hq
    refine ⟨l', signals_step hl' ?_⟩
    rintro rfl
    rw [(signal_wakes hl' hc).1] at hw
    cases hw
  by_cases hq : s.m_msg_queue = []
  · exact signals_grown hq hne
  have hm := step_moves s l
  rw [hw] at hm
  generalize (SimpleMessageQueue.step s l).1.m_msg_queue = q at hm
  generalize hc : Consumer.waiting = c at hm
  cases hm with
  | stays | pushes => exact still hc.symm hq
  | waits _ hq' => exact absurd hq' hq
  | _ => cases hc

theorem awake (max_count : Int) (run : List Label) : Awake (final step (new max_count) run) :=
  final_rule step Awake (fun _ l h => h.step l) (s := new max_count) (fun h => by cases h) run

/-- No wake-up is lost: if the consumer waits although there is a message, some thread is about
to signal, and its signal wakes the consumer with the deque as it is. -/
theorem wakeup_pending (max_count : Int) (run : List Label)
    (hw : (final step (new max_count) run).consumer = .waiting)
    (hq : (final step (new max_count) run).m_msg_queue ≠ []) :
    ∃ l, signals (final step (new max_count) run) l = true ∧
      (final step (new max_count) (run ++ [l])).consumer = .woken ∧
      (final step (new max_count) (run ++ [l])).m_msg_queue = (final step (new max_count) run).m_msg_queue := by
  obtain ⟨l, hl⟩ := awake max_count run hw hq
  refine ⟨l, hl, ?_⟩
  rw [final_append]
  exact signal_wakes hl hw

/-- The consumer waits, and a producer has pushed a message. -/
theorem wakeup_pending_first :
    ∃ l, signals (final step (new 20480) [.start, .create true, .test, .lock, .put 0 sampleItem, .push 0]) l =
      true := by
  obtain ⟨l, hl, -⟩ := wakeup_pending 20480 [.start, .create true, .test, .lock, .put 0 sampleItem, .push 0]
    (by decide) (by decide)
  exact ⟨l, hl⟩

/-! ## What is left to do for `stop` -/

/-- A step of the consumer or of the thread that starts and stops the queue. -/
def ofThreads : Label → Bool
  | .put _ _ | .push _ | .signal _ | .destroy _ => false
  | _ => true

/-- The steps the consumer has left once `m_is_running` is false. -/
def Consumer.left : Consumer → Nat
  | .locking => 7
  | .waiting => 6
  | .woken => 5
  | .popping => 4
  | .handling _ => 3
  | .testing => 2
  | .clearing => 1
  | .unborn | .done => 0

/-- The steps `stop` has left once it has cleared `m_is_running`. -/
def Owner.left : Owner → Nat
  | .locking => 3
  | .signalling => 2
  | .joining => 1
  | _ => 0

def State.left (s : State) : Nat := s.consumer.left + s.owner.left

/-- The consumer is between its test of `m_is_running` and its pop. -/
def Getting (c : Consumer) : Prop := c = .locking ∨ c = .waiting ∨ c = .woken ∨ c = .popping

/-- `stop` has cleared `m_is_running`. Once it has pushed its message, or found the deque
full, a consumer on the way to its pop finds one. -/
structure Halted (s : State) : Prop where
  phase : Phase s
  started : s.m_initialized = true
  owner : s.owner = .locking ∨ s.owner = .signalling ∨ s.owner = .joining ∨ s.owner = .stopped
  length : 0 < s.m_max_queue_length
  awake : Awake s
  found : s.owner = .signalling ∨ s.owner = .joining → Getting s.consumer → s.m_msg_queue ≠ []

theorem Halted.running {s : State} (h : Halted s) : s.m_is_running = false := by
  have hp := h.phase
  unfold Phase at hp
  rcases h.owner with ho | ho | ho | ho <;> rw [ho] at hp <;> exact hp.1

/-- `stop` is past the steps before. -/
theorem Halted.elsewhere {s : State} (h : Halted s) {o : Owner} (ho : s.owner = o)
    (hne : o ∉ [.locking, .signalling, .joining, .stopped]) : False := by
  have hs := h.owner
  rw [ho] at hs
  simp only [List.mem_cons, List.not_mem_nil, or_false] at hne
  exact hne hs

/-- The consumer's steps on the way to the pop. -/
theorem loop_steps {s t : State} {l : Label} (hl : l ∈ [.test, .lock, .relock]) (h : next_run s l = some t) :
    (s.consumer = .testing ∧ t.consumer = if s.m_is_running then .locking else .clearing) ∨
      (s.consumer = .locking ∧ s.m_msg_queue = [] ∧ t.consumer = .waiting) ∨
      (s.consumer = .locking ∧ t.consumer = .popping) ∨
      (s.consumer = .woken ∧ t.consumer = .popping) := by
  cases l with
  | test =>
    simp only [next_run] at h
    split at h
    · cases h
      exact .inl ⟨‹_›, rfl⟩
    · cases h
  | lock =>
    simp only [next_run] at h
    split at h
    · rename_i hc hm
      split at h <;> rename_i hq <;> cases h
      · exact .inr (.inl ⟨hc, List.isEmpty_iff.1 hq, rfl⟩)
      · exact .inr (.inr (.inl ⟨hc, rfl⟩))
    · cases h
  | relock =>
    simp only [next_run] at h
    split at h
    · cases h
      exact .inr (.inr (.inr ⟨‹_›, rfl⟩))
    · cases h
  | _ => simp at hl

theorem next_loop (s : State) {l : Label} (hl : l ∈ [.test, .lock, .relock]) : next s l = next_run s l := by
  simp only [List.mem_cons, List.not_mem_nil, or_false] at hl
  rcases hl with rfl | rfl | rfl <;> simp [next, next_put, next_owner]

theorem nonempty_of_full {s : State} (h : 0 < s.m_max_queue_length) (hf : s.is_full = true) : s.m_msg_queue ≠ [] := by
  intro hq
  simp [State.is_full, hq, int32] at hf
  omega

theorem getting_wake (c : Consumer) : Getting (wake c) ↔ Getting c := by
  cases c <;> simp [Getting, wake]

theorem Halted.step {s : State} (h : Halted s) (l : Label) : Halted (step s l).1 := by
  have hphase := h.phase.step l
  have hawake := h.awake.step l
  have hr := h.running
  have elsewhere := @h.elsewhere
  obtain ⟨hp, hi, ho, hlen, ha, hfound⟩ := h
  unfold SimpleMessageQueue.step at hphase hawake ⊢
  split at hphase
  case h_2 hn => exact ⟨hp, hi, ho, hlen, ha, hfound⟩
  case h_1 t hn =>
  simp only [hn] at hawake ⊢
  cases next_effect hn with
  | supplies p msg | lengthens p msg =>
    exact ⟨hphase, hi, ho, hlen, hawake, fun _ _ =>
      by simp [State.setProducer, State.push_back, State.finish_put]⟩
  | signals p msg => exact ⟨hphase, hi, ho, hlen, hawake, fun ho' hg => hfound ho' ((getting_wake _).1 hg)⟩
  | advances _ c hl =>
    refine ⟨hphase, hi, ho, hlen, hawake, fun ho' hg => ?_⟩
    rw [next_loop s hl] at hn
    -- the consumer that leaves its test has seen `m_is_running` false, and clears the deque
    rcases loop_steps hl hn with ⟨-, hc⟩ | ⟨hc, -⟩ | ⟨hc, -⟩ | ⟨hc, -⟩
    · rw [hr] at hc
      dsimp only at hg hc
      rw [hc] at hg
      simp [Getting] at hg
    all_goals exact hfound ho' (by simp [Getting, hc])
  | pops | handles | clears => exact ⟨hphase, hi, ho, hlen, hawake, fun _ hg => by simp [Getting] at hg⟩
  | starts ho' | creates ho' | fails ho' | stops ho' | halts ho' => exact (elsewhere ho' (by simp)).elim
  | skips _ hf => exact ⟨hphase, hi, .inr (.inr (.inl rfl)), hlen, hawake, fun _ _ => nonempty_of_full hlen hf⟩
  | exits o _ ho' =>
    refine ⟨hphase, hi, ?_, hlen, hawake, fun _ _ => by simp [State.push_back]⟩
    rcases ho' with rfl | rfl <;> simp
  | rings ho' =>
    refine ⟨hphase, hi, .inr (.inr (.inl rfl)), hlen, hawake, fun _ hg => ?_⟩
    exact hfound (.inl ho') ((getting_wake _).1 hg)
  | joins => exact ⟨hphase, hi, .inr (.inr (.inr rfl)), hlen, hawake, by simp⟩
  | _ => exact ⟨hphase, hi, ho, hlen, hawake, hfound⟩

theorem left_wake (c : Consumer) : (wake c).left ≤ c.left := by
  cases c <;> simp [wake, Consumer.left]

/-- A step of the two threads leaves less to do, and no other step leaves more. -/
theorem left_step {s : State} (h : Halted s) (l : Label) :
    (step s l).1.left + (if (ofThreads l && (step s l).2) = true then 1 else 0) ≤ s.left := by
  have hr := h.running
  unfold step
  split
  case h_2 => simp
  case h_1 t hn =>
  unfold State.left
  cases next_effect hn with
  | admits | rejects | overflows | supplies | lengthens | destroys => exact Nat.le_refl _
  | signals => exact Nat.add_le_add_right (left_wake _) _
  | advances _ c hl =>
    have hl' : ofThreads l = true := by
      simp only [List.mem_cons, List.not_mem_nil, or_false] at hl
      rcases hl with rfl | rfl | rfl <;> rfl
    rw [next_loop s hl] at hn
    rcases loop_steps hl hn with ⟨hc, ht⟩ | ⟨hc, -, ht⟩ | ⟨hc, ht⟩ | ⟨hc, ht⟩ <;> dsimp only at ht <;>
      simp only [hl', hc, ht, hr, Consumer.left, Bool.and_self, Bool.false_eq_true, if_true, if_false] <;> omega
  | pops _ _ hc | handles _ hc | clears hc =>
    rw [hc]
    simp only [ofThreads, Consumer.left, Bool.and_self, if_true]
    omega
  | starts ho | creates ho | fails ho | stops ho | halts ho => exact (h.elsewhere ho (by simp)).elim
  | skips ho => simp [ofThreads, ho, Owner.left]
  | exits o ho ho' =>
    rcases ho' with rfl | rfl <;> simp [ofThreads, ho, Owner.left, State.push_back]
  | rings ho =>
    have := left_wake s.consumer
    simp [ofThreads, ho, Owner.left]
    omega
  | joins ho => simp [ofThreads, ho, Owner.left]

/-- The thread of the label can take its step, or it is a signal the consumer waits for. -/
def Drives (s : State) (l : Label) : Prop :=
  (step s l).2 = true ∧ (ofThreads l = true ∨ s.consumer = .waiting ∧ signals s l = true)

/-- A signal that wakes the consumer is a step its thread can take. -/
theorem signals_taken {s : State} {l : Label} (hs : signals s l = true) (hc : s.consumer = .waiting) :
    (step s l).2 = true := by
  rcases step_cases s l with he | ⟨t, he, -⟩
  · have hw := (signal_wakes hs hc).1
    rw [he, hc] at hw
    cases hw
  · rw [he]

theorem exists_drives_joining {s : State} (h : Halted s) (ho : s.owner = .joining) : ∃ l, Drives s l := by
  have hp : s.m_initialized = true ∧ s.consumer ≠ .unborn := by
    have hp := h.phase
    rw [Phase, ho] at hp
    exact hp.2
  have take (l : Label) (hl : ofThreads l = true) (ht : (step s l).2 = true) : ∃ l, Drives s l := ⟨l, ht, .inl hl⟩
  have free (hne : s.consumer ≠ .popping) : s.m_mutex = false := by simp [State.m_mutex, hne]
  cases hc : s.consumer with
  | unborn => exact absurd hc hp.2
  | testing => exact take .test rfl (by simp [step, next, next_put, next_run, hc])
  | locking =>
    refine take .lock rfl ?_
    have hm := free (by simp [hc])
    by_cases hq : s.m_msg_queue = [] <;> simp [step, next, next_put, next_run, hc, hm, hq]
  | waiting =>
    obtain ⟨l, hl⟩ := h.awake hc (h.found (.inr ho) (by simp [Getting, hc]))
    exact ⟨l, signals_taken hl hc, .inr ⟨hc, hl⟩⟩
  | woken =>
    have hm := free (by simp [hc])
    exact take .relock rfl (by simp [step, next, next_put, next_run, hc, hm])
  | popping =>
    obtain ⟨msg, rest, hq⟩ := List.exists_cons_of_ne_nil (h.found (.inr ho) (by simp [Getting, hc]))
    exact take .pop rfl (by simp [step, next, next_put, next_run, hc, hq])
  | handling msg => exact take .handle rfl (by simp [step, next, next_put, next_run, hc])
  | clearing =>
    have hm := free (by simp [hc])
    exact take .clear_msg_queue rfl (by simp [step, next, next_put, next_run, hc, hm])
  | done => exact take .join rfl (by simp [step, next, next_put, next_run, next_owner, ho, hc])

/-- Until `stop` has returned something drives it on, unless the consumer is about to pop the
empty deque before the exit message is in it. -/
theorem exists_drives {s : State} (h : Halted s) :
    s.owner = .stopped ∨ (s.owner = .locking ∧ ¬ PopSafe s) ∨ ∃ l, Drives s l := by
  rcases h.owner with ho | ho | ho | ho
  · refine .inr ?_
    by_cases hc : s.consumer = .popping
    · cases hq : s.m_msg_queue with
      | nil => exact .inl ⟨ho, fun hs => hs hc hq⟩
      | cons msg rest =>
        exact .inr ⟨.pop, by simp [step, next, next_put, next_run, hc, hq], .inl rfl⟩
    · have hm : s.m_mutex = false := by simp [State.m_mutex, hc]
      exact .inr ⟨.push_exit, by simp [step, next, next_put, next_run, next_owner, ho, hm], .inl rfl⟩
  · exact .inr (.inr ⟨.signal_exit, by simp [step, next, next_put, next_run, next_owner, ho], .inl rfl⟩)
  · exact .inr (.inr (exists_drives_joining h ho))
  · exact .inl ho

theorem m_max_queue_length_step (s : State) (l : Label) : (step s l).1.m_max_queue_length = s.m_max_queue_length := by
  rcases step_cases s l with he | ⟨t, he, ht⟩
  · rw [he]
  rw [he]
  cases ht <;> rfl

/-- The state `stop` is in when it has cleared `m_is_running`. -/
theorem halted (max_count : Int) (hmax : 0 < max_count) (run : List Label)
    (hs : (final step (new max_count) run).owner = .halting) :
    Halted (step (final step (new max_count) run) .halt).1 := by
  have hp := phase max_count run
  have ha := awake max_count run
  have hlen : (final step (new max_count) run).m_max_queue_length = max_count :=
    final_rule step (fun s => s.m_max_queue_length = max_count)
      (fun s l h => (m_max_queue_length_step s l).trans h) (s := new max_count) rfl run
  have hphase := hp.step .halt
  have hawake := ha.step .halt
  generalize final step (new max_count) run = s at *
  rw [Phase, hs] at hp
  have hhalt : (step s .halt).1 = { s with m_is_running := false, owner := .locking } := by
    simp [step, next, next_put, next_run, next_owner, hs]
  rw [hhalt] at hphase hawake ⊢
  exact ⟨hphase, hp.2.1, .inl rfl, by simpa [hlen] using hmax, hawake, by simp⟩

/-- `stop` gets through. Once it has cleared `m_is_running`, whatever else happens, the consumer
and `stop` take at most ten more steps, and until `stop` has returned one of them can take its next
step, or another thread is about to wake the consumer; the one exception is the consumer about to
pop the empty deque while the exit message is not yet pushed. -/
theorem stop_returns (max_count : Int) (hmax : 0 < max_count) (run more : List Label)
    (hs : (final step (new max_count) run).owner = .halting) :
    let s := (step (final step (new max_count) run) .halt).1
    let t := final step s more
    (trace step s more).countP (fun r => ofThreads r.1 && r.2) ≤ 10 ∧
      (t.owner = .stopped ∨ (t.owner = .locking ∧ ¬ PopSafe t) ∨
        ∃ l, (step t l).2 = true ∧ (ofThreads l = true ∨ t.consumer = .waiting ∧ signals t l = true)) := by
  intro s t
  have h : Halted s := halted max_count hmax run hs
  constructor
  · have hwork := work_le step (fun r => ofThreads r.1 && r.2) Halted State.left (fun _ l h => h.step l)
      (fun _ l h => left_step h l) h more
    have hleft : s.left ≤ 10 := by
      unfold State.left
      have hc : s.consumer.left ≤ 7 := by cases s.consumer <;> simp [Consumer.left]
      have ho : s.owner.left ≤ 3 := by cases s.owner <;> simp [Owner.left]
      omega
    omega
  · exact exists_drives (final_rule step Halted (fun _ l h => h.step l) h more)

/-- A producer's message is in the deque when the queue is stopped. -/
theorem stop_returns_first :
    let s := (step (final step (new 20480) [.start, .create true, .put 0 sampleItem, .push 0, .stop]) .halt).1
    (trace step s [.push_exit, .signal 0, .test, .clear_msg_queue, .join]).countP
        (fun r => ofThreads r.1 && r.2) ≤ 10 :=
  (stop_returns 20480 (by decide) [.start, .create true, .put 0 sampleItem, .push 0, .stop]
    [.push_exit, .signal 0, .test, .clear_msg_queue, .join] (by decide)).1

end RtcClient.SimpleMessageQueue
