import RtcClient.Common.MsgQueue
import Mathlib.Data.List.Basic
import Mathlib.Data.List.Perm.Subperm
/-!
# Where the messages of the queue are

Every message a producer puts is in exactly one place: with its producer, in the
deque, with the consumer, handled, or destroyed. The invariants are case analyses over
`Effect`, one lemma for each write to the logs.
-/

namespace RtcClient.SimpleMessageQueue

open Lib

/-- The message of a `put` call. -/
def putMessage : Label → Option MessageItem
  | .put _ msg => some msg
  | _ => none

/-! ## The threads' phases -/

/-- What the phase of the owner says about the flags and the consumer. The queue
without a consumer is the one whose `pthread_create` failed. -/
def PhaseAt (running initialized : Bool) (c : Consumer) : Owner → Prop
  | .fresh => running = false ∧ initialized = false ∧ c = .unborn
  | .creating => running = true ∧ initialized = false ∧ c = .unborn
  | .started =>
    (running = true ∧ initialized = true ∧ c ≠ .unborn) ∨ (running = false ∧ initialized = false ∧ c = .unborn)
  | .halting => running = true ∧ initialized = true ∧ c ≠ .unborn
  | .locking | .signalling | .joining => running = false ∧ initialized = true ∧ c ≠ .unborn
  | .stopped => running = false ∧ ((initialized = true ∧ c = .done) ∨ (initialized = false ∧ c = .unborn))

def Phase (s : State) : Prop := PhaseAt s.m_is_running s.m_initialized s.consumer s.owner

theorem wake_unborn (c : Consumer) : wake c = .unborn ↔ c = .unborn := by
  cases c <;> simp [wake]

theorem wake_done (c : Consumer) : wake c = .done ↔ c = .done := by
  cases c <;> simp [wake]

theorem wake_held (c : Consumer) : held (wake c) = held c := by
  cases c <;> rfl

theorem PhaseAt.consumer {running initialized : Bool} {c c' : Consumer} {o : Owner}
    (h : PhaseAt running initialized c o)
    (hu : c' = .unborn ↔ c = .unborn) (hd : c = .done → c' = .done) : PhaseAt running initialized c' o := by
  cases o with
  | stopped => exact ⟨h.1, h.2.imp (fun hc => ⟨hc.1, hd hc.2⟩) (fun hc => ⟨hc.1, hu.2 hc.2⟩)⟩
  | _ => simpa only [PhaseAt, ne_eq, hu] using h

theorem Phase.step {s : State} (h : Phase s) (l : Label) : Phase (step s l).1 := by
  rcases step_cases s l with he | ⟨t, he, ht⟩
  · rw [he]
    exact h
  rw [he]
  unfold Phase at h
  cases ht with
  | signals p msg hp => exact h.consumer (wake_unborn _) (wake_done _).2
  | advances _ c _ hs hc => exact h.consumer (by simp [hs.2.1, hc.2.1]) (by simp [hs.2.2])
  | pops msg rest hc hq => exact h.consumer (by simp [hc]) (by simp [hc])
  | handles msg hc => exact h.consumer (by simp [hc]) (by simp [hc])
  | clears hc => exact h.consumer (by simp [hc]) (by simp)
  | starts ho =>
    rw [ho] at h
    exact ⟨rfl, h.2⟩
  | creates ho =>
    rw [ho] at h
    exact .inl ⟨h.1, rfl, by simp⟩
  | fails ho =>
    rw [ho] at h
    exact .inr ⟨rfl, rfl, h.2.2⟩
  | stops ho =>
    rw [ho] at h
    rcases h with ⟨hr, hi⟩ | ⟨hr, hi⟩
    · simpa [Phase, PhaseAt, hr] using hi
    · simp [Phase, PhaseAt, hr, hi]
  | halts ho =>
    rw [ho] at h
    exact ⟨rfl, h.2⟩
  | skips ho =>
    rw [ho] at h
    exact h
  | exits o ho ho' =>
    rw [ho] at h
    rcases ho' with rfl | rfl <;> exact h
  | rings ho =>
    rw [ho] at h
    exact ⟨h.1, h.2.1, fun hw => h.2.2 ((wake_unborn _).1 hw)⟩
  | joins ho hc =>
    rw [ho] at h
    exact ⟨h.1, .inl ⟨h.2.1, hc h.2.1⟩⟩
  | _ => exact h

theorem phase (max_count : Int) (run : List Label) : Phase (final step (new max_count) run) :=
  final_rule step Phase (fun _ l h => h.step l) (s := new max_count) ⟨rfl, rfl, rfl⟩ run

/-! ## The accepted messages -/

/-- The messages of `put` calls that returned `b`. -/
def answered (b : Bool) (returned : List (MessageItem × Bool)) : List MessageItem :=
  (returned.filter (fun r => r.2 == b && isMessage r.1)).map (·.1)

/-- What became of the accepted messages, and of the refused ones. -/
structure Ledger (s : State) : Prop where
  accepted : s.accepted.filter isMessage =
    s.handled ++ held s.consumer ++ s.cleared ++ s.m_msg_queue.filter isMessage
  uncleared : s.consumer ≠ .done → s.cleared = []
  dropped : s.dropped = answered false s.returned

theorem answered_append (b : Bool) (l : List (MessageItem × Bool)) (msg : MessageItem) :
    answered b (l ++ [(msg, b)]) = answered b l ++ [msg].filter isMessage := by
  cases h : isMessage msg <;> simp [answered, h]

theorem answered_append_not (b : Bool) (l : List (MessageItem × Bool)) (msg : MessageItem) :
    answered b (l ++ [(msg, !b)]) = answered b l := by
  simp [answered]

theorem Ledger.step {s : State} (h : Ledger s) (hp : Phase s) (l : Label) : Ledger (step s l).1 := by
  rcases step_cases s l with he | ⟨t, he, ht⟩
  · rw [he]
    exact h
  rw [he]
  obtain ⟨ha, hu, hd⟩ := h
  cases ht with
  | supplies p msg =>
    refine ⟨?_, hu, hd⟩
    simp only [State.setProducer, State.push_back, List.filter_append, ha, List.append_assoc]
  | lengthens p msg =>
    refine ⟨?_, hu, hd.trans (answered_append_not false _ msg).symm⟩
    simp only [State.finish_put, State.setProducer, State.push_back, List.filter_append, ha, List.append_assoc]
  | signals p msg =>
    refine ⟨?_, fun hc => hu (fun hs => hc ((wake_done _).2 hs)), hd.trans (answered_append_not false _ msg).symm⟩
    exact ha.trans (by rw [← wake_held s.consumer]; rfl)
  | destroys p msg =>
    refine ⟨ha, hu, ?_⟩
    exact (congrArg (· ++ _) hd).trans (answered_append false _ msg).symm
  | advances _ c _ hs hc =>
    refine ⟨?_, fun _ => hu hs.2.2, hd⟩
    rw [ha, hs.1, hc.1]
  | pops msg rest hc hq =>
    have hu' := hu (by simp [hc])
    refine ⟨?_, fun _ => hu', hd⟩
    rw [ha, hc, hq, hu', ← List.singleton_append, List.filter_append]
    simp [held]
  | handles msg hc =>
    have hu' := hu (by simp [hc])
    refine ⟨?_, fun _ => hu', hd⟩
    rw [ha, hc, hu']
    simp [held]
  | clears hc =>
    refine ⟨?_, by simp, hd⟩
    rw [ha, hc, hu (by simp [hc])]
    simp [held]
  | creates ho =>
    unfold Phase at hp
    rw [ho] at hp
    have hc : s.consumer = .unborn := hp.2.2
    refine ⟨?_, fun _ => hu (by simp [hc]), hd⟩
    rw [ha, hc]
    rfl
  | exits o =>
    refine ⟨?_, hu, hd⟩
    simp only [State.push_back, List.filter_append, ha, List.append_assoc]
  | rings ho =>
    refine ⟨?_, fun hc => hu (fun hs => hc ((wake_done _).2 hs)), hd⟩
    exact ha.trans (by rw [← wake_held s.consumer])
  | _ => exact ⟨ha, hu, hd⟩

/-- The deque is within its bound, which is an `int`. -/
def Bounded (s : State) : Prop :=
  s.m_max_queue_length < 2 ^ 31 ∧ (s.m_msg_queue.length : Int) ≤ max s.m_max_queue_length 0

theorem Bounded.push {s : State} (h : Bounded s) (hf : s.is_full = false) :
    ((s.m_msg_queue.length + 1 : Nat) : Int) ≤ max s.m_max_queue_length 0 := by
  obtain ⟨hm, hl⟩ := h
  have hlt : s.m_msg_queue.length < 2 ^ 31 := by omega
  have hf' : int32 s.m_msg_queue.length < s.m_max_queue_length := by simpa [State.is_full] using hf
  rw [int32_of_lt hlt] at hf'
  omega

theorem Bounded.step {s : State} (h : Bounded s) (l : Label) : Bounded (step s l).1 := by
  rcases step_cases s l with he | ⟨t, he, ht⟩
  · rw [he]
    exact h
  rw [he]
  cases ht with
  | supplies p msg _ hf | lengthens p msg _ hf =>
    refine ⟨h.1, ?_⟩
    have := h.push hf
    simpa [State.setProducer, State.finish_put, State.push_back] using this
  | exits o _ _ hf =>
    refine ⟨h.1, ?_⟩
    have := h.push hf
    simpa [State.push_back] using this
  | pops msg rest hc hq =>
    refine ⟨h.1, ?_⟩
    have := h.2
    rw [hq] at this
    simp only [List.length_cons] at this ⊢
    omega
  | clears hc => exact ⟨h.1, Int.le_max_right _ _⟩
  | _ => exact h

/-! ## The calls of the producers -/

/-- The message a producer has pushed and not yet returned from. -/
def pushed : Producer → List MessageItem
  | .signalling msg => [msg].filter isMessage
  | _ => []

/-- The message a producer has neither pushed nor destroyed yet. -/
def carried : Producer → List MessageItem
  | .locking msg | .refused msg => [msg].filter isMessage
  | _ => []

/-- The producers outside `ps` are idle. -/
def Covers (producers : Nat → Producer) (ps : List Nat) : Prop := ps.Nodup ∧ ∀ p ∉ ps, producers p = .idle

/-- The messages of the producers `ps`, as `f` reads them off their phases. -/
def inHand (f : Producer → List MessageItem) (producers : Nat → Producer) (ps : List Nat) : List MessageItem :=
  ps.flatMap (fun p => f (producers p))

theorem Covers.insert {producers : Nat → Producer} {ps : List Nat} (h : Covers producers ps) (p : Nat) :
    ∃ rest, p ∉ rest ∧ Covers producers (p :: rest) ∧
      ∀ f, f .idle = [] → (inHand f producers ps).Perm (inHand f producers (p :: rest)) := by
  by_cases hp : p ∈ ps
  · have hperm : ps.Perm (p :: ps.erase p) := List.perm_cons_erase hp
    refine ⟨ps.erase p, h.1.not_mem_erase, ⟨hperm.nodup_iff.1 h.1, ?_⟩, fun f _ => hperm.flatMap_right _⟩
    intro q hq
    exact h.2 q (fun hmem => hq (hperm.mem_iff.1 hmem))
  · refine ⟨ps, hp, ⟨List.nodup_cons.2 ⟨hp, h.1⟩, fun q hq => h.2 q (fun hmem => hq (by simp [hmem]))⟩, ?_⟩
    intro f hf
    simp [inHand, h.2 p hp, hf]

/-- A step of one producer changes only what that producer has in hand. -/
theorem Covers.update {producers : Nat → Producer} {ps : List Nat} (h : Covers producers ps) (p : Nat) (q : Producer) :
    ∃ ps', Covers (Function.update producers p q) ps' ∧ ∀ f, f .idle = [] → ∃ rest,
      (inHand f producers ps).Perm (f (producers p) ++ rest) ∧
        inHand f (Function.update producers p q) ps' = f q ++ rest := by
  obtain ⟨rest, hp, hc, hperm⟩ := h.insert p
  refine ⟨p :: rest, ⟨hc.1, ?_⟩, fun f hf => ⟨inHand f producers rest, hperm f hf, ?_⟩⟩
  · intro r hr
    rw [Function.update_of_ne (by rintro rfl; simp at hr)]
    exact hc.2 r hr
  · have hrest : ∀ r ∈ rest, f (Function.update producers p q r) = f (producers r) := by
      intro r hr
      rw [Function.update_of_ne (by rintro rfl; exact hp hr)]
    simp only [inHand, List.flatMap_cons, Function.update_self, List.flatMap_congr hrest]

/-- The messages of the `put` calls in a trace. -/
def puts (h : List (Label × Bool)) : List MessageItem :=
  (h.filterMap (fun c => if c.2 then putMessage c.1 else none)).filter isMessage

/-- Each call's message is accepted, destroyed by `put`, or still carried by its
producer, and each accepted message's call has returned true or is about to. -/
structure Tally (s : State) (h : List (Label × Bool)) (ps : List Nat) : Prop where
  covers : Covers s.producers ps
  calls : (puts h).Perm (s.accepted.filter isMessage ++ s.dropped ++ inHand carried s.producers ps)
  returns : (s.accepted.filter isMessage).Perm (answered true s.returned ++ inHand pushed s.producers ps)

theorem puts_append (h : List (Label × Bool)) (l : Label) (hl : putMessage l = none) (b : Bool) :
    puts (h ++ [(l, b)]) = puts h := by
  cases b <;> simp [puts, hl]

theorem puts_append_put (h : List (Label × Bool)) (p : Nat) (msg : MessageItem) :
    puts (h ++ [(.put p msg, true)]) = puts h ++ [msg].filter isMessage := by
  simp [puts, putMessage]

theorem puts_append_false (h : List (Label × Bool)) (l : Label) : puts (h ++ [(l, false)]) = puts h := by
  simp [puts]

/-- One producer moves on: what it carried and had pushed is booked elsewhere. -/
theorem Tally.move {s t : State} {h h' : List (Label × Bool)} {ps : List Nat} (ht : Tally s h ps) (p : Nat)
    (q : Producer) (hq : t.producers = Function.update s.producers p q) (new old out done : List MessageItem)
    (hputs : puts h' = puts h ++ new) (hacc : t.accepted.filter isMessage = s.accepted.filter isMessage ++ old)
    (hdrop : t.dropped = s.dropped ++ out) (hret : answered true t.returned = answered true s.returned ++ done)
    (hcarried : (carried (s.producers p) ++ new).Perm (carried q ++ old ++ out))
    (hpushed : (pushed (s.producers p) ++ old).Perm (pushed q ++ done)) : ∃ ps, Tally t h' ps := by
  obtain ⟨ps', hc, hrest⟩ := ht.covers.update p q
  obtain ⟨carriedRest, hc1, hc2⟩ := hrest carried rfl
  obtain ⟨pushedRest, hp1, hp2⟩ := hrest pushed rfl
  refine ⟨ps', hq ▸ hc, ?_, ?_⟩
  · rw [hputs, hacc, hdrop, hq, hc2]
    refine List.perm_iff_count.2 fun a => ?_
    have h1 := ht.calls.count_eq a
    have h2 := hc1.count_eq a
    have h3 := hcarried.count_eq a
    simp only [List.count_append] at *
    omega
  · rw [hacc, hret, hq, hp2]
    refine List.perm_iff_count.2 fun a => ?_
    have h1 := ht.returns.count_eq a
    have h2 := hp1.count_eq a
    have h3 := hpushed.count_eq a
    simp only [List.count_append] at *
    omega

theorem Tally.step {s : State} {h : List (Label × Bool)} {ps : List Nat} (ht : Tally s h ps) (l : Label) :
    ∃ ps, Tally (step s l).1 (h ++ [(l, (step s l).2)]) ps := by
  rcases step_cases s l with he | ⟨t, he, hef⟩
  · rw [he]
    refine ⟨ps, ht.covers, ?_, ht.returns⟩
    rw [puts_append_false]
    exact ht.calls
  rw [he]
  cases hef with
  | admits p msg hp =>
    -- the message is put and carried, in the same step
    refine ht.move p (.locking msg) rfl ([msg].filter isMessage) [] [] [] (puts_append_put h p msg) ?_ ?_ ?_ ?_ ?_
      <;> simp [State.setProducer, hp, carried, pushed]
  | rejects p msg hp =>
    refine ht.move p (.refused msg) rfl ([msg].filter isMessage) [] [] [] (puts_append_put h p msg) ?_ ?_ ?_ ?_ ?_
      <;> simp [State.setProducer, hp, carried, pushed]
  | overflows p msg hp =>
    refine ht.move p (.refused msg) rfl [] [] [] [] (puts_append _ _ rfl _ |>.trans (by simp)) ?_ ?_ ?_ ?_ ?_
      <;> simp [State.setProducer, hp, carried, pushed]
  | supplies p msg hp =>
    refine ht.move p (.signalling msg) rfl [] ([msg].filter isMessage) [] []
      (puts_append _ _ rfl _ |>.trans (by simp)) ?_ ?_ ?_ ?_ ?_
      <;> simp [State.setProducer, State.push_back, hp, carried, pushed]
  | lengthens p msg hp =>
    refine ht.move p .idle rfl [] ([msg].filter isMessage) [] ([msg].filter isMessage)
      (puts_append _ _ rfl _ |>.trans (by simp)) ?_ ?_ (answered_append true _ msg) ?_ ?_
      <;> simp [State.finish_put, State.setProducer, State.push_back, hp, carried, pushed]
  | signals p msg hp =>
    refine ht.move p .idle rfl [] [] [] ([msg].filter isMessage)
      (puts_append _ _ rfl _ |>.trans (by simp)) ?_ ?_ (answered_append true _ msg) ?_ ?_
      <;> simp [State.finish_put, State.setProducer, hp, carried, pushed]
  | destroys p msg hp =>
    -- what is destroyed is dropped, and its caller told false
    refine ht.move p .idle rfl [] [] ([msg].filter isMessage) []
      (puts_append _ _ rfl _ |>.trans (by simp)) ?_ rfl
      ((answered_append_not true _ msg).trans (by simp)) ?_ ?_
      <;> simp [State.finish_put, State.setProducer, hp, carried, pushed]
  | advances _ c hl =>
    refine ⟨ps, ht.covers, ?_, ht.returns⟩
    rw [puts_append h _ (by rcases hl with _ | ⟨_, _ | ⟨_, _ | ⟨_, ⟨⟩⟩⟩⟩ <;> rfl)]
    exact ht.calls
  | exits o =>
    -- the message that `stop` pushes is none of the callers'
    have hx : [(⟨EXIT_MSG_ID, 0, 0, 0⟩ : MessageItem)].filter isMessage = [] := rfl
    refine ⟨ps, ht.covers, ?_, ?_⟩
    · rw [puts_append h _ rfl]
      simpa [State.push_back, List.filter_append, hx] using ht.calls
    · simpa [State.push_back, List.filter_append, hx] using ht.returns
  | _ =>
    refine ⟨ps, ht.covers, ?_, ht.returns⟩
    rw [puts_append h _ rfl]
    exact ht.calls

/-! ## The accounts -/

theorem ledger (max_count : Int) (run : List Label) : Ledger (final step (new max_count) run) := by
  have h := final_rule step (fun s => Phase s ∧ Ledger s) (fun _ l h => ⟨h.1.step l, h.2.step h.1 l⟩)
    (s := new max_count) ⟨⟨rfl, rfl, rfl⟩, rfl, fun _ => rfl, rfl⟩ run
  exact h.2

theorem tally (max_count : Int) (run : List Label) :
    ∃ ps, Tally (final step (new max_count) run) (trace step (new max_count) run) ps := by
  refine run_rule step (fun s h => ∃ ps, Tally s h ps) (fun _ _ l ⟨_, h⟩ => h.step l) ⟨[], ?_⟩ run
  exact ⟨⟨List.nodup_nil, fun _ _ => rfl⟩, .refl _, .refl _⟩

theorem bounded (max_count : Int32) (run : List Label) : Bounded (final step (new max_count.toInt) run) := by
  refine final_rule step Bounded (fun _ l h => h.step l) ⟨max_count.toInt_lt, ?_⟩ run
  exact Int.le_max_right _ _

/-- In every state of every run the accepted messages are, in order, the handled ones, the
one the consumer holds, the cleared ones and the queued ones; the refused ones are destroyed;
no message is in two places; and the deque is within its bound. -/
theorem messages_accounted (max_count : Int32) (run : List Label) :
    let s := final step (new max_count.toInt) run
    let calls := puts (trace step (new max_count.toInt) run)
    s.accepted.filter isMessage = s.handled ++ held s.consumer ++ s.cleared ++ s.m_msg_queue.filter isMessage ∧
      (∃ ps, Covers s.producers ps ∧
        (s.accepted.filter isMessage).Perm (answered true s.returned ++ inHand pushed s.producers ps) ∧
        calls.Perm (s.accepted.filter isMessage ++ s.dropped ++ inHand carried s.producers ps)) ∧
      s.dropped = answered false s.returned ∧
      (calls.Nodup →
        (s.handled ++ held s.consumer ++ s.cleared ++ s.m_msg_queue.filter isMessage ++ s.dropped).Nodup) ∧
      (s.m_msg_queue.length : Int) ≤ max s.m_max_queue_length 0 := by
  intro s calls
  have hl : Ledger s := ledger _ run
  obtain ⟨ps, ht⟩ := tally max_count.toInt run
  refine ⟨hl.accepted, ⟨ps, ht.covers, ht.returns, ht.calls⟩, hl.dropped, ?_, (bounded max_count run).2⟩
  intro hn
  rw [← hl.accepted]
  exact (List.nodup_append.1 (ht.calls.nodup_iff.1 hn)).1

theorem messages_accounted_late :
    (final step (new 20480) lateRun).handled = [sampleItem] ∧
      ((final step (new 20480) lateRun).handled ++ held (final step (new 20480) lateRun).consumer ++
        (final step (new 20480) lateRun).cleared ++ (final step (new 20480) lateRun).m_msg_queue.filter isMessage ++
        (final step (new 20480) lateRun).dropped).Nodup :=
  ⟨by decide, (messages_accounted 20480 lateRun).2.2.2.1 (by decide)⟩

/-! ## Shutdown -/

/-- `stop` has returned and no `put` is in progress. -/
def Quiet (s : State) : Prop := s.owner = .stopped ∧ ∀ p, s.producers p = .idle

/-- The messages whose `put` returned true are handled or destroyed, and none is in the deque. -/
def Settled (s : State) : Prop :=
  (answered true s.returned).Perm (s.handled ++ s.cleared) ∧ ∀ msg ∈ s.m_msg_queue, isMessage msg = false

/-- No consumer will look at the deque again: it has cleared it, or its creation failed. -/
def Unserved (s : State) : Prop :=
  s.consumer = .done ∨ (s.consumer = .unborn ∧ s.owner ≠ .fresh ∧ s.owner ≠ .creating)

/-- The step does not leave a message where no consumer will find it: no producer pushes one
once the consumer is gone, and `pthread_create` does not fail over queued ones. -/
def InTime (s : State) : Label → Prop
  | .push p => ∀ msg, s.producers p = .locking msg → isMessage msg = true → s.is_full = false → ¬ Unserved s
  | .create false => s.owner = .creating → ∀ msg ∈ s.m_msg_queue, isMessage msg = false
  | _ => True

/-- A message is in the deque and no consumer will find it. -/
def Stranded (s : State) : Prop := Unserved s ∧ ∃ msg ∈ s.m_msg_queue, isMessage msg = true

theorem Looping.served {s : State} (h : Looping s.consumer) : ¬ Unserved s := by
  rintro (hc | hc)
  · exact h.2.2 hc
  · exact h.2.1 hc.1

/-- A step that cannot be taken is in time. -/
theorem inTime_blocked {s : State} {l : Label} (h : (step s l).2 = false) : InTime s l := by
  unfold InTime
  split
  · rename_i p
    intro msg hp _ _ hu
    have hm : s.m_mutex = false := by
      unfold State.m_mutex
      rcases hu with hc | ⟨hc, -⟩ <;> rw [hc] <;> rfl
    simp [step, next, next_put, hp, hm] at h
  · intro ho
    simp [step, next, next_put, next_run, next_owner, ho] at h
  · trivial

theorem stranded_congr {s t : State} (hu : Unserved t ↔ Unserved s)
    (hq : ∀ msg, isMessage msg = true → (msg ∈ t.m_msg_queue ↔ msg ∈ s.m_msg_queue)) : Stranded t ↔ Stranded s := by
  unfold Stranded
  rw [hu]
  constructor
  · rintro ⟨h, msg, hmem, hm⟩
    exact ⟨h, msg, (hq msg hm).1 hmem, hm⟩
  · rintro ⟨h, msg, hmem, hm⟩
    exact ⟨h, msg, (hq msg hm).2 hmem, hm⟩

/-- A pushed message is stranded if nobody serves the deque any more. -/
theorem stranded_push {s t : State} {p : Nat} {msg : MessageItem} (hp : s.producers p = .locking msg)
    (hf : s.is_full = false) (hu : Unserved t ↔ Unserved s) (hq : t.m_msg_queue = s.m_msg_queue ++ [msg]) :
    Stranded t ↔ Stranded s ∨ ¬ InTime s (.push p) := by
  have hi : InTime s (.push p) ↔ (isMessage msg = true → ¬ Unserved s) := by
    simp only [InTime, hp, Producer.locking.injEq, hf]
    grind
  rw [hi]
  unfold Stranded
  rw [hu, hq]
  simp only [List.mem_append, List.mem_singleton]
  grind

/-- A step strands a message exactly when it is not in time, and none ever gets out. -/
theorem stranded_step {s : State} (h : Phase s) (l : Label) :
    Stranded (step s l).1 ↔ Stranded s ∨ ¬ InTime s l := by
  rcases step_cases s l with he | ⟨t, he, ht⟩
  · have hi : InTime s l := inTime_blocked (by rw [he])
    simp [he, hi]
  rw [he]
  -- most steps are in time by definition and keep what is stranded
  have keep (hi : InTime s l) (hs : Stranded t ↔ Stranded s) : Stranded t ↔ Stranded s ∨ ¬ InTime s l := by
    simp [hi, hs]
  have served (hi : InTime s l) (hs : ¬ Unserved s) (hs' : ¬ Stranded t) : Stranded t ↔ Stranded s ∨ ¬ InTime s l :=
    keep hi (iff_of_false hs' (fun hst => hs hst.1))
  unfold Phase at h
  cases ht with
  | supplies p msg hp hf => exact stranded_push hp hf .rfl rfl
  | lengthens p msg hp hf => exact stranded_push hp hf .rfl rfl
  | overflows p msg hp hf => exact keep (by simp [InTime, hf]) .rfl
  | signals p msg hp =>
    refine keep trivial (stranded_congr ?_ (fun _ _ => .rfl))
    simp only [Unserved, State.finish_put, State.setProducer, wake_done, wake_unborn]
  | advances _ c hl hs hc =>
    have hi : InTime s l := by rcases hl with _ | ⟨_, _ | ⟨_, _ | ⟨_, ⟨⟩⟩⟩⟩ <;> trivial
    exact served hi hs.served (fun hst => Looping.served (s := { s with consumer := c }) hc hst.1)
  | pops msg rest hc hq => exact served trivial (by simp [Unserved, hc]) (by simp [Stranded, Unserved])
  | handles msg hc => exact served trivial (by simp [Unserved, hc]) (by simp [Stranded, Unserved])
  | clears hc => exact served trivial (by simp [Unserved, hc]) (by simp [Stranded])
  | starts ho =>
    rw [ho] at h
    exact served trivial (by simp [Unserved, h.2.2, ho]) (by simp [Stranded, Unserved, h.2.2])
  | creates ho =>
    rw [ho] at h
    exact served trivial (by simp [Unserved, h.2.2, ho]) (by simp [Stranded, Unserved])
  | fails ho =>
    rw [ho] at h
    have hu : ¬ Unserved s := by simp [Unserved, h.2.2, ho]
    have hs : ¬ Stranded s := fun hs => hu hs.1
    have hi : InTime s (.create false) ↔ ∀ msg ∈ s.m_msg_queue, isMessage msg = false := by simp [InTime, ho]
    rw [hi, or_iff_right hs]
    simp [Stranded, Unserved, h.2.2]
  | stops ho =>
    refine keep trivial (stranded_congr ?_ (fun _ _ => .rfl))
    cases hr : s.m_is_running <;> simp [Unserved, ho]
  | halts ho => exact keep trivial (stranded_congr (by simp [Unserved, ho]) (fun _ _ => .rfl))
  | skips ho => exact keep trivial (stranded_congr (by simp [Unserved, ho]) (fun _ _ => .rfl))
  | exits o ho ho' =>
    refine keep trivial (stranded_congr ?_ ?_)
    · rcases ho' with rfl | rfl <;> simp [Unserved, State.push_back, ho]
    · intro msg hm
      have hx : msg ≠ ⟨EXIT_MSG_ID, 0, 0, 0⟩ := by
        rintro rfl
        cases hm
      simp [State.push_back, hx]
  | rings ho =>
    refine keep trivial (stranded_congr ?_ (fun _ _ => .rfl))
    simp [Unserved, wake_done, wake_unborn, ho]
  | joins ho => exact keep trivial (stranded_congr (by simp [Unserved, ho]) (fun _ _ => .rfl))
  | admits | rejects | destroys => exact keep trivial .rfl

/-- In a quiet state the messages are settled unless one is stranded. -/
theorem settled_iff {s : State} {h : List (Label × Bool)} {ps : List Nat} (hp : Phase s) (hl : Ledger s)
    (ht : Tally s h ps) (hq : Quiet s) : Settled s ↔ ¬ Stranded s := by
  unfold Phase at hp
  rw [hq.1] at hp
  have hu : Unserved s := by
    rcases hp.2 with hc | hc
    · exact .inl hc.2
    · exact .inr ⟨hc.2, by simp [hq.1], by simp [hq.1]⟩
  have hh : held s.consumer = [] := by
    rcases hp.2 with hc | hc <;> rw [hc.2] <;> rfl
  constructor
  · rintro ⟨-, hnone⟩ ⟨-, msg, hmem, hm⟩
    rw [hnone msg hmem] at hm
    cases hm
  · intro hs
    have hnone : ∀ msg ∈ s.m_msg_queue, isMessage msg = false := by
      intro msg hmem
      by_contra hm
      exact hs ⟨hu, msg, hmem, by simpa using hm⟩
    refine ⟨?_, hnone⟩
    have hret := ht.returns
    have hidle : inHand pushed s.producers ps = [] := by simp [inHand, hq.2, pushed]
    have hempty : s.m_msg_queue.filter isMessage = [] := by simpa using hnone
    rw [hl.accepted, hh, hempty, hidle] at hret
    simpa using hret.symm

/-- When `stop` has returned and no `put` is in progress, the accepted messages are settled
exactly when every step of the run was in time. -/
theorem shutdown_settled_iff (max_count : Int) (run : List Label) (h : Quiet (final step (new max_count) run)) :
    Settled (final step (new max_count) run) ↔ Along step InTime (new max_count) run := by
  obtain ⟨ps, ht⟩ := tally max_count run
  rw [settled_iff (phase max_count run) (ledger max_count run) ht h]
  have hf := fault_iff step (C := InTime) Stranded Phase (fun _ l hp => hp.step l) (fun _ l hp => stranded_step hp l)
    (s := new max_count) ⟨rfl, rfl, rfl⟩ run
  have hnew : ¬ Stranded (new max_count) := by simp [Stranded, new]
  rw [hf, or_iff_right hnew, not_not]

/-- A producer's message is pushed and cleared, then the queue is stopped. -/
def stopRun : List Label :=
  [.start, .create true, .put 0 sampleItem, .push 0, .signal 0, .stop, .halt, .push_exit, .test,
    .clear_msg_queue, .join]

theorem shutdown_settled_stop : Settled (final step (new 20480) stopRun) := by
  refine (shutdown_settled_iff 20480 stopRun ⟨by decide, fun p => ?_⟩).2 ?_
  · cases p <;> rfl
  · simp [stopRun, Along, InTime, Unserved, step, next, next_put, next_run, next_owner, new, State.setProducer,
      State.is_full]

/-- A producer that was admitted before `stop` pushes after the consumer has cleared the deque. -/
theorem not_shutdown_settled :
    ¬ ∀ run, Quiet (final step (new 20480) run) → Settled (final step (new 20480) run) := by
  intro h
  have := (h [.start, .create true, .put 0 sampleItem, .stop, .halt, .push_exit, .signal_exit, .test,
    .clear_msg_queue, .join, .push 0, .signal 0] ⟨by decide, fun p => by cases p <;> rfl⟩).2 sampleItem (by decide)
  revert this
  decide

end RtcClient.SimpleMessageQueue
