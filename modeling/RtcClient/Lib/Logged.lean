import Mathlib.Order.Defs.Unbundled
/-!
# Programs that log what they do

A program that can fail and moves a position through a text, a heap or the like, and logs
what it touches on the way, is an `EStateM` program: the position and the log outlive a
failure. `Does` compares it with a function that computes the same without a log. Its
rules follow the two side by side, so one pass over the code shows both that they agree
and that everything logged is good.
-/

namespace RtcClient.Lib

/-- Where a program is and what it has logged. -/
structure Logged (P Event : Type) where
  pos : P
  log : List Event

namespace Logged

variable {P Event E A B C : Type}

abbrev Program (P Event E A : Type) : Type := EStateM E (Logged P Event) A

/-! ## Operations -/

def position : Program P Event E P := fun s => .ok s.pos s

def record (event : Event) : Program P Event E Unit := fun s => .ok () { s with log := s.log ++ [event] }

def move (pos : P) : Program P Event E Unit := fun s => .ok () { s with pos := pos }

/-- Log how `x` ended: where it was called, where it left off and whether it succeeded. -/
def called (event : P → P → Bool → Event) (x : Program P Event E A) : Program P Event E A := fun s =>
  match x s with
  | .ok a s' => .ok a { s' with log := s'.log ++ [event s.pos s'.pos true] }
  | .error e s' => .error e { s' with log := s'.log ++ [event s.pos s'.pos false] }

/-! ## Good steps -/

/-- The position went along `R`, and what was logged is good. -/
structure Good (R : P → P → Prop) (good : Event → Prop) (s s' : Logged P Event) : Prop where
  moved : R s.pos s'.pos
  logged : ∃ log, s'.log = s.log ++ log ∧ ∀ event ∈ log, good event

section
variable {R : P → P → Prop} {good : Event → Prop} {s s' s'' : Logged P Event}

theorem Good.refl [Std.Refl R] (s : Logged P Event) : Good R good s s :=
  ⟨Std.Refl.refl _, [], (List.append_nil _).symm, by simp⟩

theorem Good.trans [IsTrans P R] (h : Good R good s s') (h' : Good R good s' s'') : Good R good s s'' := by
  obtain ⟨log, hlog, hgood⟩ := h.logged
  obtain ⟨log', hlog', hgood'⟩ := h'.logged
  refine ⟨IsTrans.trans _ _ _ h.moved h'.moved, log ++ log', by rw [hlog', hlog, List.append_assoc], ?_⟩
  intro event he
  rcases List.mem_append.1 he with he | he
  · exact hgood event he
  · exact hgood' event he

theorem Good.record (h : Good R good s s') {event : Event} (he : good event) :
    Good R good s { s' with log := s'.log ++ [event] } := by
  obtain ⟨log, hlog, hgood⟩ := h.logged
  refine ⟨h.moved, log ++ [event], by simp [hlog], ?_⟩
  intro e hmem
  rcases List.mem_append.1 hmem with hmem | hmem
  · exact hgood e hmem
  · rw [List.mem_singleton.1 hmem]
    exact he

end

/-! ## Agreement with a function -/

/-- From `s`, `x` ends as `f` says, seen through `view`, and its steps are good. -/
def Does (R : P → P → Prop) (good : Event → Prop) (view : A → P → B) (x : Program P Event E A) (s : Logged P Event)
    (f : Except E B) : Prop :=
  match x s, f with
  | .ok a s', .ok b => b = view a s'.pos ∧ Good R good s s'
  | .error e s', .error e' => e' = e ∧ Good R good s s'
  | _, _ => False

section
variable {R : P → P → Prop} {good : Event → Prop} {view : A → P → B} {s : Logged P Event}

theorem Does.of_ok {x : Program P Event E A} {a : A} {s' : Logged P Event} (hx : x s = .ok a s')
    (h : Good R good s s') : Does R good view x s (.ok (view a s'.pos)) := by
  unfold Does
  rw [hx]
  exact ⟨rfl, h⟩

theorem Does.of_error {x : Program P Event E A} {e : E} {s' : Logged P Event} (hx : x s = .error e s')
    (h : Good R good s s') : Does R good view x s (.error e) := by
  unfold Does
  rw [hx]
  exact ⟨rfl, h⟩

/-- Either both succeed or both fail. -/
theorem Does.cases {x : Program P Event E A} {f : Except E B} (h : Does R good view x s f) :
    (∃ a s', x s = .ok a s' ∧ f = .ok (view a s'.pos) ∧ Good R good s s') ∨
      ∃ e s', x s = .error e s' ∧ f = .error e ∧ Good R good s s' := by
  unfold Does at h
  cases hx : x s with
  | ok a s' =>
    cases f with
    | ok b =>
      rw [hx] at h
      obtain ⟨rfl, hgood⟩ := h
      exact .inl ⟨a, s', rfl, rfl, hgood⟩
    | error e => rw [hx] at h; exact h.elim
  | error e s' =>
    cases f with
    | ok b => rw [hx] at h; exact h.elim
    | error e' =>
      rw [hx] at h
      obtain ⟨rfl, hgood⟩ := h
      exact .inr ⟨e', s', rfl, rfl, hgood⟩

theorem Does.ret [Std.Refl R] (view : A → P → B) (a : A) (s : Logged P Event) :
    Does R good view (pure a : Program P Event E A) s (.ok (view a s.pos)) := of_ok rfl (.refl s)

theorem Does.fail [Std.Refl R] (view : A → P → B) (e : E) (s : Logged P Event) :
    Does R good view (throw e : Program P Event E A) s (.error e) := of_error rfl (.refl s)

theorem Does.ite {c : Prop} [Decidable c] {x y : Program P Event E A} {f g : Except E B}
    (hx : c → Does R good view x s f) (hy : ¬ c → Does R good view y s g) :
    Does R good view (if c then x else y) s (if c then f else g) := by
  by_cases h : c
  · rw [if_pos h, if_pos h]
    exact hx h
  · rw [if_neg h, if_neg h]
    exact hy h

/-- One after the other. -/
theorem Does.seq [IsTrans P R] {D : Type} {x : Program P Event E A} {f : Except E B} {y : A → Program P Event E C}
    {g : B → Except E D} {view' : C → P → D} (hx : Does R good view x s f)
    (hy : ∀ a s', f = .ok (view a s'.pos) → R s.pos s'.pos → Does R good view' (y a) s' (g (view a s'.pos))) :
    Does R good view' (x >>= y) s (f >>= g) := by
  rcases hx.cases with ⟨a, s', hrun, rfl, hgood⟩ | ⟨e, s', hrun, rfl, hgood⟩
  · have hbind : (x >>= y) s = y a s' := by
      change (EStateM.bind x y) s = _
      rw [EStateM.bind, hrun]
    rcases (hy a s' rfl hgood.moved).cases with ⟨c, s'', hrun', hg, hgood'⟩ | ⟨e, s'', hrun', hg, hgood'⟩
    · have hlast : g (view a s'.pos) = .ok (view' c s''.pos) := hg
      change Does R good view' (x >>= y) s (g (view a s'.pos))
      rw [hlast]
      exact of_ok (hbind.trans hrun') (hgood.trans hgood')
    · change Does R good view' (x >>= y) s (g (view a s'.pos))
      rw [hg]
      exact of_error (hbind.trans hrun') (hgood.trans hgood')
  · refine of_error ?_ hgood
    change (EStateM.bind x y) s = _
    rw [EStateM.bind, hrun]

/-! Operations the function has no counterpart of. -/

/-- A step that always succeeds comes before the rest. -/
theorem Does.after [IsTrans P R] {x : Program P Event E C} {y : C → Program P Event E A} {f : Except E B} {c : C}
    {s' : Logged P Event} (hx : x s = .ok c s') (hgood : Good R good s s') (hy : Does R good view (y c) s' f) :
    Does R good view (x >>= y) s f := by
  have hbind : (x >>= y) s = y c s' := by
    change (EStateM.bind x y) s = _
    rw [EStateM.bind, hx]
  rcases hy.cases with ⟨a, s'', hrun, rfl, hgood'⟩ | ⟨e, s'', hrun, rfl, hgood'⟩
  · exact of_ok (hbind.trans hrun) (hgood.trans hgood')
  · exact of_error (hbind.trans hrun) (hgood.trans hgood')

theorem Does.position [Std.Refl R] [IsTrans P R] {y : P → Program P Event E A} {f : Except E B}
    (hy : Does R good view (y s.pos) s f) : Does R good view (position >>= y) s f :=
  after (c := s.pos) rfl (.refl s) hy

theorem Does.record [Std.Refl R] [IsTrans P R] {event : Event} {y : Unit → Program P Event E A} {f : Except E B}
    (he : good event) (hy : ∀ s', s'.pos = s.pos → Does R good view (y ()) s' f) :
    Does R good view (record event >>= y) s f :=
  after (c := ()) rfl ((Good.refl s).record he) (hy _ rfl)

theorem Does.move [IsTrans P R] {pos : P} {y : Unit → Program P Event E A} {f : Except E B} (hR : R s.pos pos)
    (hy : ∀ s', s'.pos = pos → Does R good view (y ()) s' f) : Does R good view (move pos >>= y) s f :=
  after (c := ()) rfl ⟨hR, [], (List.append_nil _).symm, by simp⟩ (hy _ rfl)

theorem Does.called {event : P → P → Bool → Event} {x : Program P Event E A} {f : Except E B}
    (h : Does R good view x s f) (hok : ∀ a pos, f = .ok (view a pos) → R s.pos pos → good (event s.pos pos true))
    (herror : ∀ pos, R s.pos pos → good (event s.pos pos false)) :
    Does R good view (called event x) s f := by
  rcases h.cases with ⟨a, s', hrun, rfl, hgood⟩ | ⟨e, s', hrun, rfl, hgood⟩
  · have hcalled : Logged.called event x s = .ok a { s' with log := s'.log ++ [event s.pos s'.pos true] } := by
      rw [Logged.called, hrun]
    unfold Does
    rw [hcalled]
    exact ⟨rfl, hgood.record (hok a s'.pos rfl hgood.moved)⟩
  · have hcalled : Logged.called event x s = .error e { s' with log := s'.log ++ [event s.pos s'.pos false] } := by
      rw [Logged.called, hrun]
    unfold Does
    rw [hcalled]
    exact ⟨rfl, hgood.record (herror s'.pos hgood.moved)⟩

end

end Logged

end RtcClient.Lib
