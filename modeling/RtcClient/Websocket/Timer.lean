import RtcClient.Lib.Runs
/-!
# The timers

The timers are looked at whenever the manager polls, so they run late. A timer that repeats is set
to its next time from the one before, not from when it ran: it does not fall behind, and if the
manager polls at least once a period it has run once for each period that has passed
(`fires_on_time`).
-/

namespace RtcClient

open Lib

def MG_TIMER_REPEAT : Nat := 1
def MG_TIMER_RUN_NOW : Nat := 2

/-- `struct mg_timer`. A timer is known by its id. -/
structure MgTimer where
  id : Nat
  period_ms : Int
  expire : Int := 0
  flags : Nat
deriving DecidableEq, Repr

/-- The body of the loop of `mg_timer_poll`: whether the timer runs. -/
def MgTimer.poll (t : MgTimer) (now_ms : Int) : MgTimer × Bool :=
  let expire := if t.expire = 0 then now_ms + t.period_ms else t.expire
  if expire > now_ms then ({ t with expire := expire }, false)
  else
    ({ t with expire := if now_ms - expire > t.period_ms then now_ms + t.period_ms else expire + t.period_ms }, true)

/-- `g_timers`, and the time of the last poll. -/
structure MgTimers where
  g_timers : List MgTimer := []
  oldnow : Int := 0
deriving DecidableEq, Repr

/-- What is done with the timers. -/
inductive TimerCall where
  | mg_timer_init (id : Nat) (ms : Int) (flags : Nat)
  | mg_timer_free (id : Nat)
  | mg_timer_poll (now_ms : Int)
deriving DecidableEq, Repr

namespace MgTimers

/-- The timers that remain, and those that run. -/
def poll_loop (now_ms : Int) : List MgTimer → List MgTimer × List Nat
  | [] => ([], [])
  | t :: ts =>
    let r := t.poll now_ms
    let rest := poll_loop now_ms ts
    if r.2 then (if t.flags &&& MG_TIMER_REPEAT = 0 then rest.1 else r.1 :: rest.1, t.id :: rest.2)
    else (r.1 :: rest.1, rest.2)

/-- If the time goes back, the timers begin anew. -/
def mg_timer_poll (s : MgTimers) (now_ms : Int) : MgTimers × List Nat :=
  let timers := if s.oldnow > now_ms then s.g_timers.map fun t => { t with expire := 0 } else s.g_timers
  let r := poll_loop now_ms timers
  ({ g_timers := r.1, oldnow := now_ms }, r.2)

/-- The ids of the timers that run. -/
def step (s : MgTimers) : TimerCall → MgTimers × List Nat
  | .mg_timer_init id ms flags =>
    ({ s with g_timers := { id := id, period_ms := ms, flags := flags } :: s.g_timers },
      if flags &&& MG_TIMER_RUN_NOW = 0 then [] else [id])
  | .mg_timer_free id => ({ s with g_timers := s.g_timers.eraseP (·.id = id) }, [])
  | .mg_timer_poll now_ms => s.mg_timer_poll now_ms

/-- How often a timer has run. -/
def fired (id : Nat) (h : List (TimerCall × List Nat)) : Nat := (h.flatMap Prod.snd).count id

/-- The time does not go back, at most a period passes from one poll to the next, and a timer is not set or freed
while it is in use. -/
def Steady (t : MgTimer) (s : MgTimers) : TimerCall → Prop
  | .mg_timer_init id _ _ => id ∉ s.g_timers.map MgTimer.id
  | .mg_timer_free id => id ≠ t.id
  | .mg_timer_poll now_ms => s.oldnow ≤ now_ms ∧ now_ms ≤ s.oldnow + t.period_ms

instance (t : MgTimer) (s : MgTimers) : (call : TimerCall) → Decidable (Steady t s call)
  | .mg_timer_init id _ _ => inferInstanceAs (Decidable (id ∉ s.g_timers.map MgTimer.id))
  | .mg_timer_free id => inferInstanceAs (Decidable (id ≠ t.id))
  | .mg_timer_poll now_ms => inferInstanceAs (Decidable (s.oldnow ≤ now_ms ∧ now_ms ≤ s.oldnow + t.period_ms))

/-! ## One poll -/

theorem poll_same (t : MgTimer) (now_ms : Int) :
    (t.poll now_ms).1.id = t.id ∧ (t.poll now_ms).1.period_ms = t.period_ms ∧ (t.poll now_ms).1.flags = t.flags := by
  simp only [MgTimer.poll]
  split_ifs <;> exact ⟨rfl, rfl, rfl⟩

/-- A timer that is not late by more than a period keeps to its times. -/
theorem poll_set {t : MgTimer} {now_ms : Int} (hset : t.expire ≠ 0) (hlate : now_ms - t.expire ≤ t.period_ms) :
    t.poll now_ms =
      if t.expire > now_ms then (t, false) else ({ t with expire := t.expire + t.period_ms }, true) := by
  simp only [MgTimer.poll]
  rw [if_neg hset, if_neg (Int.not_lt.2 hlate)]

theorem poll_loop_ids (now_ms : Int) (ts : List MgTimer) :
    ((poll_loop now_ms ts).1.map MgTimer.id).Sublist (ts.map MgTimer.id) ∧
      (poll_loop now_ms ts).2.Sublist (ts.map MgTimer.id) := by
  induction ts with
  | nil => exact ⟨.refl _, .refl _⟩
  | cons t ts ih =>
    have hid := (poll_same t now_ms).1
    rw [poll_loop, List.map_cons]
    split_ifs
    · exact ⟨ih.1.cons _, ih.2.cons_cons _⟩
    · refine ⟨?_, ih.2.cons_cons _⟩
      rw [List.map_cons, hid]
      exact ih.1.cons_cons _
    · refine ⟨?_, ih.2.cons _⟩
      rw [List.map_cons, hid]
      exact ih.1.cons_cons _

/-- A timer that repeats remains, and runs if it is due. -/
theorem poll_loop_timer (now_ms : Int) {ts : List MgTimer} {t : MgTimer} (hmem : t ∈ ts)
    (hids : (ts.map MgTimer.id).Nodup) (hrepeat : t.flags &&& MG_TIMER_REPEAT ≠ 0) :
    (t.poll now_ms).1 ∈ (poll_loop now_ms ts).1 ∧
      (poll_loop now_ms ts).2.count t.id = if (t.poll now_ms).2 then 1 else 0 := by
  induction ts with
  | nil => cases hmem
  | cons u ts ih =>
    rw [List.map_cons, List.nodup_cons] at hids
    rw [poll_loop]
    rcases List.mem_cons.1 hmem with rfl | hmem
    · have hnone : (poll_loop now_ms ts).2.count t.id = 0 :=
        List.count_eq_zero_of_not_mem fun h => hids.1 ((poll_loop_ids now_ms ts).2.subset h)
      split_ifs
      · exact ⟨List.mem_cons_self, by rw [List.count_cons_self, hnone]⟩
      · exact ⟨List.mem_cons_self, hnone⟩
    · have hne : u.id ≠ t.id := fun h => hids.1 (h ▸ List.mem_map_of_mem hmem)
      obtain ⟨hkeeps, hcount⟩ := ih hmem hids.2
      have hmiss : (u.id :: (poll_loop now_ms ts).2).count t.id = (poll_loop now_ms ts).2.count t.id :=
        List.count_cons_of_ne hne
      split_ifs at * <;>
        first
        | exact ⟨hkeeps, hmiss.trans hcount⟩
        | exact ⟨List.mem_cons_of_mem _ hkeeps, hmiss.trans hcount⟩
        | exact ⟨List.mem_cons_of_mem _ hkeeps, hcount⟩

/-! ## A timer that repeats -/

/-- A timer that began at `start` has run `k` times, and the next time is still to come. -/
structure Due (t : MgTimer) (start : Int) (k : Nat) (s : MgTimers) : Prop where
  ids : (s.g_timers.map MgTimer.id).Nodup
  timer : { t with expire := start + (k + 1) * t.period_ms } ∈ s.g_timers
  now : start + k * t.period_ms ≤ s.oldnow ∧ s.oldnow < start + (k + 1) * t.period_ms

variable {t : MgTimer} {start : Int} {k : Nat} {s : MgTimers}

/-- The timer runs if its time has come, and is set to the next one. -/
theorem Due.poll (h : Due t start k s) (hrepeat : t.flags &&& MG_TIMER_REPEAT ≠ 0) (hperiod : 0 < t.period_ms)
    (hstart : 0 ≤ start) {now_ms : Int} (hnow : s.oldnow ≤ now_ms ∧ now_ms ≤ s.oldnow + t.period_ms) :
    Due t start (k + (s.mg_timer_poll now_ms).2.count t.id) (s.mg_timer_poll now_ms).1 := by
  have hbefore := h.now
  have hnext : ((k : Int) + 1) * t.period_ms = k * t.period_ms + t.period_ms := by rw [Int.add_mul, Int.one_mul]
  have hpassed : 0 ≤ (k : Int) * t.period_ms := Int.mul_nonneg (Int.natCast_nonneg k) (Int.le_of_lt hperiod)
  obtain ⟨hkeeps, hcount⟩ := poll_loop_timer now_ms h.timer h.ids hrepeat
  have hids := h.ids.sublist (poll_loop_ids now_ms s.g_timers).1
  rw [mg_timer_poll, if_neg (Int.not_lt.2 hnow.1)]
  rw [poll_set (show start + ((k : Int) + 1) * t.period_ms ≠ 0 by omega)
    (show now_ms - (start + ((k : Int) + 1) * t.period_ms) ≤ t.period_ms by omega)] at hkeeps hcount
  by_cases hdue : start + ((k : Int) + 1) * t.period_ms > now_ms
  · rw [if_pos hdue] at hkeeps hcount
    rw [hcount, if_neg Bool.false_ne_true]
    exact ⟨hids, hkeeps, Int.le_trans hbefore.1 hnow.1, hdue⟩
  · rw [if_neg hdue] at hkeeps hcount
    have hafter : start + (((k + 1 : Nat) : Int) + 1) * t.period_ms =
        start + ((k : Int) + 1) * t.period_ms + t.period_ms := by
      rw [Int.add_mul _ 1, Int.one_mul, Int.natCast_succ]
      omega
    rw [hcount, if_pos rfl]
    refine ⟨hids, ?_, ?_, ?_⟩
    · rw [hafter]
      exact hkeeps
    · show start + ((k + 1 : Nat) : Int) * t.period_ms ≤ now_ms
      rw [Int.natCast_succ]
      omega
    · show now_ms < start + (((k + 1 : Nat) : Int) + 1) * t.period_ms
      rw [hafter]
      omega

/-- How often the timer has run, by the time of the last poll. -/
theorem Due.count (h : Due t start k s) (hperiod : 0 < t.period_ms) : (k : Int) = (s.oldnow - start) / t.period_ms := by
  have hnow := h.now
  rw [Int.add_mul, Int.one_mul] at hnow
  refine ((Int.ediv_emod_unique hperiod).2 ⟨Int.sub_add_cancel _ _, ?_, ?_⟩).1.symm
  · rw [Int.mul_comm]
    exact Int.sub_nonneg_of_le (Int.le_sub_left_of_add_le hnow.1)
  · rw [Int.mul_comm]
    refine Int.sub_left_lt_of_lt_add (Int.sub_left_lt_of_lt_add ?_)
    exact hnow.2

/-- A call changes nothing about the timer, but for a poll in which it runs. -/
theorem Due.step (h : Due t start k s) (hrepeat : t.flags &&& MG_TIMER_REPEAT ≠ 0) (hperiod : 0 < t.period_ms)
    (hstart : 0 ≤ start) {call : TimerCall} (hcall : Steady t s call) :
    Due t start (k + (s.step call).2.count t.id) (s.step call).1 := by
  have hused : t.id ∈ s.g_timers.map MgTimer.id := List.mem_map.2 ⟨_, h.timer, rfl⟩
  cases call with
  | mg_timer_init id ms flags =>
    have hne : id ≠ t.id := fun he => hcall (he ▸ hused)
    have hnone : (s.step (.mg_timer_init id ms flags)).2.count t.id = 0 := by
      rw [MgTimers.step]
      split_ifs
      · rfl
      · exact List.count_eq_zero_of_not_mem (by simpa using hne.symm)
    rw [hnone]
    exact {
      ids := List.nodup_cons.2 ⟨hcall, h.ids⟩
      timer := List.mem_cons_of_mem _ h.timer
      now := h.now }
  | mg_timer_free id =>
    exact {
      ids := h.ids.sublist (List.eraseP_sublist.map _)
      timer := (List.mem_eraseP_of_neg (by simpa using Ne.symm hcall)).2 h.timer
      now := h.now }
  | mg_timer_poll now_ms => exact h.poll hrepeat hperiod hstart hcall

/-- At the first poll the timer is set. -/
theorem due_first (hmem : t ∈ s.g_timers) (hids : (s.g_timers.map MgTimer.id).Nodup)
    (hrepeat : t.flags &&& MG_TIMER_REPEAT ≠ 0) (hperiod : 0 < t.period_ms)
    (hfirst : t.expire = 0 ∨ start < s.oldnow) :
    Due t start 0 (s.mg_timer_poll start).1 ∧ (s.mg_timer_poll start).2.count t.id = 0 := by
  have hfinish (ts : List MgTimer) (u : MgTimer) (hid : u.id = t.id) (hmem : u ∈ ts)
      (hids : (ts.map MgTimer.id).Nodup) (hflags : u.flags = t.flags)
      (hpoll : u.poll start = ({ t with expire := start + t.period_ms }, false)) :
      Due t start 0 { g_timers := (poll_loop start ts).1, oldnow := start } ∧
        (poll_loop start ts).2.count t.id = 0 := by
    obtain ⟨hkeeps, hcount⟩ := poll_loop_timer start hmem hids (hflags ▸ hrepeat)
    rw [hpoll] at hkeeps hcount
    refine ⟨⟨hids.sublist (poll_loop_ids start ts).1, ?_, ?_, ?_⟩, hid ▸ hcount⟩
    · simpa using hkeeps
    · simp
    · simpa using Int.lt_add_of_pos_right start hperiod
  have hwait (e : Int) (he : e = 0) :
      MgTimer.poll { t with expire := e } start = ({ t with expire := start + t.period_ms }, false) := by
    simp only [MgTimer.poll]
    rw [if_pos he, if_pos (show start + t.period_ms > start by omega)]
  rw [mg_timer_poll]
  split_ifs with hback
  · refine hfinish _ { t with expire := 0 } rfl (List.mem_map_of_mem hmem) ?_ rfl (hwait 0 rfl)
    rwa [List.map_map]
  · exact hfinish _ t rfl hmem hids rfl (hwait t.expire (hfirst.resolve_right hback))

end MgTimers

open MgTimers in
/-- A timer that repeats is looked at for the first time, at `start`, or the time has gone back. If from then on the
manager polls at least once a period, it has always run once for each period since. -/
theorem fires_on_time {s : MgTimers} {t : MgTimer} (hmem : t ∈ s.g_timers) (hids : (s.g_timers.map MgTimer.id).Nodup)
    (hrepeat : t.flags &&& MG_TIMER_REPEAT ≠ 0) (hperiod : 0 < t.period_ms) {start : Int} (hstart : 0 ≤ start)
    (hfirst : t.expire = 0 ∨ start < s.oldnow) {calls : List TimerCall}
    (hcalls : Along MgTimers.step (Steady t) (s.mg_timer_poll start).1 calls) :
    (fired t.id (trace MgTimers.step s (.mg_timer_poll start :: calls)) : Int) =
      ((final MgTimers.step s (.mg_timer_poll start :: calls)).oldnow - start) / t.period_ms := by
  obtain ⟨hdue, hnone⟩ := due_first hmem hids hrepeat hperiod hfirst
  have hrun := Along.rule MgTimers.step (h := []) (fun s h => Due t start (fired t.id h) s)
    (fun s h call hs hcall => by
      have hmore : fired t.id (h ++ [(call, (s.step call).2)]) = fired t.id h + (s.step call).2.count t.id := by
        rw [fired, List.flatMap_append, List.count_append, List.flatMap_singleton, fired]
      exact hmore ▸ hs.step hrepeat hperiod hstart hcall) hcalls hdue
  have hfired : fired t.id (trace MgTimers.step s (.mg_timer_poll start :: calls)) =
      fired t.id (trace MgTimers.step (s.mg_timer_poll start).1 calls) := by
    rw [fired, trace_cons, List.flatMap_cons, List.count_append]
    show (s.mg_timer_poll start).2.count t.id + _ = _
    rw [hnone, Nat.zero_add]
    rfl
  rw [List.nil_append] at hrun
  rw [hfired]
  exact hrun.count hperiod

/-- The timer of a client has a period of 12 seconds. Here the manager polls every 7 seconds. -/
theorem fires_on_time_client :
    let s : MgTimers := (MgTimers.step {} (.mg_timer_init 1 12000 3)).1
    let calls := [.mg_timer_poll 7500, .mg_timer_poll 14500, .mg_timer_poll 21500, .mg_timer_poll 28500]
    (MgTimers.fired 1 (trace MgTimers.step s (.mg_timer_poll 500 :: calls)) : Int) = (28500 - 500) / 12000 :=
  fires_on_time (t := ⟨1, 12000, 0, 3⟩) (by decide) (by decide) (by decide) (by decide) (show (0 : Int) ≤ 500 by decide)
    (by decide) (by decide)

end RtcClient
