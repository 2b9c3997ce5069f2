import Mathlib.Data.List.Basic
/-!
# Runs of a machine

A machine takes an input in a state and gives the next state and an output.
`final` is the state after a list of inputs and `trace` the inputs with their
outputs. Invariants may speak about the state and the trace so far; `Along`
restricts a run to steps that meet a condition on the state they start from.
-/

namespace RtcClient.Lib

variable {S I O : Type}

/-- The state after the inputs. -/
def final (step : S → I → S × O) (s : S) : List I → S
  | [] => s
  | i :: is => final step (step s i).1 is

/-- The inputs with their outputs, in order. -/
def trace (step : S → I → S × O) (s : S) : List I → List (I × O)
  | [] => []
  | i :: is => (i, (step s i).2) :: trace step (step s i).1 is

/-- Every step of the run meets `C` in the state it starts from. -/
def Along (step : S → I → S × O) (C : S → I → Prop) (s : S) : List I → Prop
  | [] => True
  | i :: is => C s i ∧ Along step C (step s i).1 is

instance decidableAlong (step : S → I → S × O) (C : S → I → Prop) [∀ s i, Decidable (C s i)] :
    (s : S) → (is : List I) → Decidable (Along step C s is)
  | _, [] => inferInstanceAs (Decidable True)
  | s, i :: is =>
    have := decidableAlong step C (step s i).1 is
    inferInstanceAs (Decidable (C s i ∧ Along step C (step s i).1 is))

/-- What every step of a loop keeps, the loop keeps. -/
theorem foldl_keeps {A X : Type} (g : S → X) {f : S → A → S} (hf : ∀ s a, g (f s a) = g s) (l : List A) (s : S) :
    g (l.foldl f s) = g s := by
  induction l generalizing s with
  | nil => rfl
  | cons a l ih => rw [List.foldl_cons, ih, hf]

section
variable (step : S → I → S × O)

@[simp] theorem final_nil (s : S) : final step s [] = s := rfl

@[simp] theorem final_cons (s : S) (i : I) (is : List I) :
    final step s (i :: is) = final step (step s i).1 is := rfl

@[simp] theorem trace_nil (s : S) : trace step s [] = [] := rfl

@[simp] theorem trace_cons (s : S) (i : I) (is : List I) :
    trace step s (i :: is) = (i, (step s i).2) :: trace step (step s i).1 is := rfl

theorem trace_congr {other : S → I → S × O} {is : List I} (h : ∀ i ∈ is, ∀ s, step s i = other s i) (s : S) :
    trace step s is = trace other s is := by
  induction is generalizing s with
  | nil => rfl
  | cons i is ih => rw [trace_cons, trace_cons, h i (by simp), ih (fun j hj => h j (by simp [hj]))]

theorem final_append (s : S) (a b : List I) : final step s (a ++ b) = final step (final step s a) b := by
  induction a generalizing s with
  | nil => rfl
  | cons i a ih => exact ih _

theorem trace_append (s : S) (a b : List I) :
    trace step s (a ++ b) = trace step s a ++ trace step (final step s a) b := by
  induction a generalizing s with
  | nil => rfl
  | cons i a ih => simp only [List.cons_append, trace_cons, final_cons, ih]

theorem along_append (C : S → I → Prop) (s : S) (a b : List I) :
    Along step C s (a ++ b) ↔ Along step C s a ∧ Along step C (final step s a) b := by
  induction a generalizing s with
  | nil => simp [Along]
  | cons i a ih => simp only [List.cons_append, Along, final_cons, ih, and_assoc]

/-- A property of the state and the trace that holds at the start and is kept by
every step meeting `C` holds after every run along `C`. -/
theorem Along.rule {C : S → I → Prop} (P : S → List (I × O) → Prop)
    (hstep : ∀ s h i, P s h → C s i → P (step s i).1 (h ++ [(i, (step s i).2)])) :
    ∀ {is : List I} {s : S} {h : List (I × O)}, Along step C s is → P s h →
      P (final step s is) (h ++ trace step s is) := by
  intro is
  induction is with
  | nil => intro s h _ hp; simpa using hp
  | cons i is ih =>
    intro s h ha hp
    have := ih ha.2 (hstep s h i hp ha.1)
    simpa using this

/-- What every step along `C` gives out, every output of the run is. `Q` is an invariant. -/
theorem Along.outputs {C : S → I → Prop} (Q : S → Prop) (P : O → Prop)
    (hstep : ∀ s i, Q s → C s i → Q (step s i).1 ∧ P (step s i).2) {is : List I} {s : S} (ha : Along step C s is)
    (h0 : Q s) : ∀ r ∈ trace step s is, P r.2 := by
  induction is generalizing s with
  | nil => intro r hr; cases hr
  | cons i is ih =>
    obtain ⟨hnext, hout⟩ := hstep s i h0 ha.1
    rw [trace_cons, List.forall_mem_cons]
    exact ⟨hout, ih ha.2 hnext⟩

/-- If a step gives out what `P` says exactly when it meets `C`, then a run does exactly when it is along `C`.
`Q` is an invariant and `ok` a restriction of the outputs the step lemma may use. -/
theorem outputs_iff {C : S → I → Prop} (P ok : O → Prop) (Q : S → Prop) (hq : ∀ s i, Q s → Q (step s i).1)
    (hstep : ∀ s i, Q s → ok (step s i).2 → (P (step s i).2 ↔ C s i)) {s : S} (h0 : Q s) {is : List I}
    (hok : ∀ r ∈ trace step s is, ok r.2) : (∀ r ∈ trace step s is, P r.2) ↔ Along step C s is := by
  induction is generalizing s with
  | nil => exact iff_of_true (fun r hr => by cases hr) trivial
  | cons i is ih =>
    rw [trace_cons, List.forall_mem_cons] at hok ⊢
    rw [Along, hstep s i h0 hok.1, ih (hq s i h0) hok.2]

theorem along_true (s : S) (is : List I) : Along step (fun _ _ => True) s is := by
  induction is generalizing s with
  | nil => trivial
  | cons i is ih => exact ⟨trivial, ih _⟩

/-- An invariant of the state and the trace holds after every run. -/
theorem run_rule (P : S → List (I × O) → Prop)
    (hstep : ∀ s h i, P s h → P (step s i).1 (h ++ [(i, (step s i).2)])) {s : S} (h0 : P s []) (is : List I) :
    P (final step s is) (trace step s is) := by
  have := Along.rule step (C := fun _ _ => True) P (fun s h i hp _ => hstep s h i hp) (along_true step s is) h0
  simpa using this

/-- An invariant of the state alone. -/
theorem final_rule (P : S → Prop) (hstep : ∀ s i, P s → P (step s i).1) {s : S} (h0 : P s) (is : List I) :
    P (final step s is) :=
  run_rule step (fun s _ => P s) (fun s _ i => hstep s i) h0 is

/-- Two runs of the same inputs from related states, if each step keeps the states related and
gives the same output in both. -/
theorem two_runs_rule (R : S → S → Prop)
    (hstep : ∀ s s' i, R s s' → R (step s i).1 (step s' i).1 ∧ (step s i).2 = (step s' i).2) {s s' : S} (h : R s s')
    (is : List I) : R (final step s is) (final step s' is) ∧ trace step s is = trace step s' is := by
  induction is generalizing s s' with
  | nil => exact ⟨h, rfl⟩
  | cons i is ih =>
    obtain ⟨hnext, hout⟩ := hstep s s' i h
    obtain ⟨hfinal, htrace⟩ := ih hnext
    refine ⟨hfinal, ?_⟩
    rw [trace_cons, trace_cons, hout, htrace]

/-- Two runs of inputs that are alike, one by one: if each such step keeps the states related and gives
outputs that look the same, then what the runs give looks the same. -/
theorem alike_runs_rule {A : I → I → Prop} {P : Type} (look : O → P) (R : S → S → Prop)
    (hstep : ∀ s s' i i', R s s' → A i i' → R (step s i).1 (step s' i').1 ∧ look (step s i).2 = look (step s' i').2)
    {s s' : S} (h : R s s') {is is' : List I} (hi : List.Forall₂ A is is') :
    R (final step s is) (final step s' is') ∧
      (trace step s is).map (fun r => look r.2) = (trace step s' is').map (fun r => look r.2) := by
  induction hi generalizing s s' with
  | nil => exact ⟨h, rfl⟩
  | cons ha _ ih =>
    obtain ⟨hnext, hlook⟩ := hstep s s' _ _ h ha
    obtain ⟨hfinal, htrace⟩ := ih hnext
    refine ⟨hfinal, ?_⟩
    rw [trace_cons, trace_cons, List.map_cons, List.map_cons, hlook, htrace]

/-- If a step keeps `P` exactly when it meets `C`, then `P` holds all along a run
exactly when the run is along `C`. `Q` is an invariant and `ok` a restriction of
the inputs the step lemma may use. -/
theorem along_iff {C : S → I → Prop} (P Q : S → Prop) (ok : I → Prop) (hq : ∀ s i, Q s → Q (step s i).1)
    (hstep : ∀ s i, Q s → ok i → P s → (P (step s i).1 ↔ C s i)) {s : S} (h0 : Q s) (hp : P s) (is : List I)
    (hok : ∀ i ∈ is, ok i) :
    (∀ pre post, is = pre ++ post → P (final step s pre)) ↔ Along step C s is := by
  induction is generalizing s with
  | nil =>
    refine ⟨fun _ => trivial, fun _ pre post h => ?_⟩
    obtain ⟨rfl, -⟩ := List.append_eq_nil_iff.1 h.symm
    exact hp
  | cons i is ih =>
    have hs := hstep s i h0 (hok i (by simp)) hp
    constructor
    · intro h
      have h1 : P (step s i).1 := h [i] is rfl
      refine ⟨hs.1 h1, (ih (hq s i h0) h1 (fun j hj => hok j (by simp [hj]))).1 ?_⟩
      rintro pre post rfl
      exact h (i :: pre) post rfl
    · rintro ⟨hc, ha⟩ pre post h
      cases pre with
      | nil => exact hp
      | cons j pre =>
        obtain ⟨rfl, rfl⟩ := List.cons.inj h
        exact (ih (hq s _ h0) (hs.2 hc) (fun k hk => hok k (List.mem_cons_of_mem _ hk))).2 ha pre post rfl

/-- A fault that a step keeps, and brings about exactly when it misses `C`, is there
after a run exactly when it was there before or the run is not along `C`. -/
theorem fault_iff {C : S → I → Prop} (F Q : S → Prop) (hq : ∀ s i, Q s → Q (step s i).1)
    (hstep : ∀ s i, Q s → (F (step s i).1 ↔ F s ∨ ¬ C s i)) {s : S} (h0 : Q s) (is : List I) :
    F (final step s is) ↔ F s ∨ ¬ Along step C s is := by
  induction is generalizing s with
  | nil => simp [Along]
  | cons i is ih => rw [final_cons, ih (hq s i h0), hstep s i h0, Along, not_and_or, or_assoc]

/-- If no step raises the measure and every step that counts lowers it, then at most as many steps
count as the measure is at the start. `Q` is an invariant. -/
theorem work_le (counts : I × O → Bool) (Q : S → Prop) (measure : S → Nat) (hq : ∀ s i, Q s → Q (step s i).1)
    (hstep : ∀ s i, Q s →
      measure (step s i).1 + (if counts (i, (step s i).2) = true then 1 else 0) ≤ measure s)
    {s : S} (h0 : Q s) (is : List I) :
    (trace step s is).countP counts + measure (final step s is) ≤ measure s := by
  induction is generalizing s with
  | nil => simp
  | cons i is ih =>
    have hi := hstep s i h0
    have his := ih (hq s i h0)
    rw [trace_cons, List.countP_cons, final_cons]
    omega

end

end RtcClient.Lib
