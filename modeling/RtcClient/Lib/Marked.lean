import Mathlib.Algebra.GroupWithZero.Nat
import Mathlib.Data.List.Basic
import Mathlib.Data.List.Infix
/-!
# Lists with marks

A list in which one element is a mark, as its other elements with the number of marks
before each, and the number of marks at the end.
-/

namespace RtcClient.Lib.Marked

variable {A : Type} {m : A}

/-- The list of an element with its marks, one such unit after the other, and the marks at the end. -/
def render (m : A) (us : List (Nat × A)) (t : Nat) : List A :=
  us.flatMap (fun u => List.replicate u.1 m ++ [u.2]) ++ List.replicate t m

/-- The elements behind the marks are no marks. -/
def Unmarked (m : A) (us : List (Nat × A)) : Prop := ∀ u ∈ us, u.2 ≠ m

@[simp] theorem render_nil (t : Nat) : render m [] t = List.replicate t m := rfl

theorem render_cons (u : Nat × A) (us : List (Nat × A)) (t : Nat) :
    render m (u :: us) t = List.replicate u.1 m ++ u.2 :: render m us t := by
  simp [render]

theorem Unmarked.tail {u : Nat × A} {us : List (Nat × A)} (h : Unmarked m (u :: us)) : Unmarked m us :=
  fun v hv => h v (by simp [hv])

theorem Unmarked.map {us : List (Nat × A)} {f : Nat × A → Nat × A} (h : Unmarked m us)
    (hf : ∀ u, u.2 ≠ m → (f u).2 ≠ m) : Unmarked m (us.map f) := by
  intro u hu
  obtain ⟨v, hv, rfl⟩ := List.mem_map.1 hu
  exact hf v (h v hv)

/-- Every list is marked in this way. -/
theorem exists_render [DecidableEq A] (m : A) (s : List A) : ∃ us t, Unmarked m us ∧ s = render m us t := by
  induction s with
  | nil => exact ⟨[], 0, by simp [Unmarked], rfl⟩
  | cons c s ih =>
    obtain ⟨us, t, hus, rfl⟩ := ih
    by_cases hc : c = m
    · subst hc
      cases us with
      | nil => exact ⟨[], t + 1, hus, rfl⟩
      | cons u us =>
        refine ⟨(u.1 + 1, u.2) :: us, t, ?_, by simp [render_cons, List.replicate_succ]⟩
        intro v hv
        rcases List.mem_cons.1 hv with rfl | hv
        · exact hus u (by simp)
        · exact hus v (by simp [hv])
    · refine ⟨(0, c) :: us, t, ?_, by simp [render_cons]⟩
      intro v hv
      rcases List.mem_cons.1 hv with rfl | hv
      · exact hc
      · exact hus v hv

/-- The first unit of a list is determined by it. -/
theorem replicate_append_inj {j k : Nat} {x y : A} {s r : List A} (hx : x ≠ m) (hy : y ≠ m)
    (h : List.replicate j m ++ x :: s = List.replicate k m ++ y :: r) : j = k ∧ x = y ∧ s = r := by
  induction j generalizing k with
  | zero =>
    cases k with
    | zero => simpa using h
    | succ k => exact absurd (List.cons.inj h).1 hx
  | succ j ih =>
    cases k with
    | zero => exact absurd (List.cons.inj h).1.symm hy
    | succ k =>
      obtain ⟨rfl, hxy, hsr⟩ := ih (List.cons.inj h).2
      exact ⟨rfl, hxy, hsr⟩

/-- Changing units changes the list. -/
theorem render_map_eq {us : List (Nat × A)} {f : Nat × A → Nat × A} (hf : ∀ u, u.2 ≠ m → (f u).2 ≠ m)
    (h : Unmarked m us) (t : Nat) : render m (us.map f) t = render m us t ↔ ∀ u ∈ us, f u = u := by
  induction us with
  | nil => simp
  | cons u us ih =>
    have hu := h u (by simp)
    rw [List.map_cons, render_cons, render_cons, List.forall_mem_cons, ← ih h.tail]
    constructor
    · intro he
      obtain ⟨h1, h2, h3⟩ := replicate_append_inj (hf u hu) hu he
      exact ⟨Prod.ext h1 h2, h3⟩
    · rintro ⟨h1, h2⟩
      rw [h1, h2]

theorem pair_infix_unit {k : Nat} {e x : A} {r : List A} (he : e ≠ m) (hx : x ≠ m) :
    [m, e] <:+: List.replicate k m ++ x :: r ↔ (0 < k ∧ x = e) ∨ [m, e] <:+: r := by
  induction k with
  | zero =>
    rw [List.replicate_zero, List.nil_append, List.infix_cons_iff, List.cons_prefix_cons]
    simp [hx.symm]
  | succ k ih =>
    rw [List.replicate_succ, List.cons_append, List.infix_cons_iff, ih, List.cons_prefix_cons]
    cases k with
    | zero => simp [List.cons_prefix_cons, eq_comm]
    | succ k => simp [List.replicate_succ, List.cons_prefix_cons, he]

/-- Where a mark stands directly before an element. -/
theorem pair_infix_render {us : List (Nat × A)} {t : Nat} {e : A} (he : e ≠ m) (h : Unmarked m us) :
    [m, e] <:+: render m us t ↔ ∃ u ∈ us, 0 < u.1 ∧ u.2 = e := by
  induction us with
  | nil =>
    rw [render_nil]
    refine iff_of_false (fun hi => ?_) (by simp)
    exact he (List.eq_of_mem_replicate (hi.subset (by simp)))
  | cons u us ih =>
    rw [render_cons, pair_infix_unit he (h u (by simp)), ih h.tail, List.exists_mem_cons_iff]

/-- A list ends in a mark if there are marks at its end. -/
theorem getLast?_render {us : List (Nat × A)} {t : Nat} (h : Unmarked m us) :
    (render m us t).getLast? = some m ↔ 0 < t := by
  unfold render
  cases t with
  | zero =>
    rw [List.replicate_zero, List.append_nil]
    refine iff_of_false (fun hl => ?_) (by simp)
    obtain rfl | ⟨us, u, rfl⟩ := List.eq_nil_or_concat us
    · cases hl
    · rw [List.concat_eq_append, List.flatMap_append, List.flatMap_singleton, ← List.append_assoc,
        List.getLast?_concat] at hl
      exact h u (by simp) (Option.some.inj hl)
  | succ t =>
    refine iff_of_true ?_ (Nat.succ_pos t)
    rw [List.replicate_succ', ← List.append_assoc, List.getLast?_concat]

theorem length_render (us : List (Nat × A)) (t : Nat) :
    (render m us t).length = (us.map (fun u => u.1 + 1)).sum + t := by
  simp [render, List.length_flatMap]

end RtcClient.Lib.Marked
