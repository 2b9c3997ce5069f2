import Mathlib.Data.List.Basic
/-!
# Rings

Items are put into the places 1 to `n`, one after the other and round again, so that each new
one takes the place of the oldest. `Holds` says where the newest ones are.
-/

namespace RtcClient.Lib.Ring

variable {A : Type} {n pos : Nat}

/-- The place that is used next. -/
def next (n pos : Nat) : Nat := pos % n + 1

/-- The place that was used `i` turns before. -/
def back (n pos i : Nat) : Nat := (pos - 1 + n - i) % n + 1

theorem next_le (hn : 0 < n) (pos : Nat) : 1 ≤ next n pos ∧ next n pos ≤ n :=
  ⟨Nat.succ_pos _, Nat.mod_lt pos hn⟩

theorem back_le (hn : 0 < n) (pos i : Nat) : 1 ≤ back n pos i ∧ back n pos i ≤ n :=
  ⟨Nat.succ_pos _, Nat.mod_lt _ hn⟩

theorem back_zero (h : 1 ≤ pos ∧ pos ≤ n) : back n pos 0 = pos := by
  have hmod : (pos - 1 + n) % n = pos - 1 := by
    rw [Nat.add_mod_right, Nat.mod_eq_of_lt (by omega)]
  rw [back, Nat.sub_zero, hmod]
  omega

theorem back_ne (h : 1 ≤ pos ∧ pos ≤ n) {i : Nat} (h0 : 0 < i) (hi : i < n) : back n pos i ≠ pos := by
  unfold back
  by_cases hle : i ≤ pos - 1
  · have hmod : (pos - 1 + n - i) % n = pos - 1 - i := by
      rw [show pos - 1 + n - i = (pos - 1 - i) + n by omega, Nat.add_mod_right, Nat.mod_eq_of_lt (by omega)]
    omega
  · rw [Nat.mod_eq_of_lt (by omega)]
    omega

/-- Each turn moves the places on by one. -/
theorem back_next (h : 1 ≤ pos ∧ pos ≤ n) (i : Nat) (hi : i + 1 < n) : back n (next n pos) (i + 1) = back n pos i := by
  unfold back next
  by_cases hlast : pos = n
  · subst hlast
    rw [Nat.mod_self, show 0 + 1 - 1 + pos - (i + 1) = pos - 1 - i by omega,
      show pos - 1 + pos - i = (pos - 1 - i) + pos by omega, Nat.add_mod_right]
  · rw [Nat.mod_eq_of_lt (show pos < n by omega), show pos + 1 - 1 + n - (i + 1) = pos - 1 + n - i by omega]

/-- The last items, newest first, are in the places up to `pos`, as many as there are places for. -/
structure Holds (n : Nat) (slot : Nat → Option A) (pos : Nat) (newest : List A) : Prop where
  place : 1 ≤ pos ∧ pos ≤ n
  held : ∀ i < n, ∀ x, newest[i]? = some x → slot (back n pos i) = some x

variable {slot slot' : Nat → Option A} {newest : List A} {x y : A}

theorem Holds.single (h : 1 ≤ pos ∧ pos ≤ n) (hx : slot pos = some x) : Holds n slot pos [x] := by
  refine ⟨h, fun i _ y hy => ?_⟩
  cases i with
  | zero =>
    rw [back_zero h, hx]
    exact hy
  | succ i => cases hy

/-- An item takes the next place. -/
theorem Holds.push (h : Holds n slot pos newest) (hx : slot' (next n pos) = some x)
    (hother : ∀ p, 1 ≤ p → p ≤ n → p ≠ next n pos → slot' p = slot p) : Holds n slot' (next n pos) (x :: newest) := by
  have hn : 0 < n := Nat.lt_of_lt_of_le h.place.1 h.place.2
  have hnext := next_le hn pos
  refine ⟨hnext, fun i hi y hy => ?_⟩
  cases i with
  | zero =>
    rw [back_zero hnext, hx]
    exact hy
  | succ i =>
    have hne := back_ne hnext (Nat.succ_pos i) hi
    have hle := back_le hn (next n pos) (i + 1)
    rw [hother _ hle.1 hle.2 hne, back_next h.place i hi]
    exact h.held i (by omega) y hy

/-- The newest item changes. -/
theorem Holds.replace (h : Holds n slot pos (x :: newest)) (hy : slot' pos = some y)
    (hother : ∀ p, 1 ≤ p → p ≤ n → p ≠ pos → slot' p = slot p) : Holds n slot' pos (y :: newest) := by
  have hn : 0 < n := Nat.lt_of_lt_of_le h.place.1 h.place.2
  refine ⟨h.place, fun i hi z hz => ?_⟩
  cases i with
  | zero =>
    rw [back_zero h.place, hy]
    exact hz
  | succ i =>
    have hne := back_ne h.place (Nat.succ_pos i) hi
    have hle := back_le hn pos (i + 1)
    rw [hother _ hle.1 hle.2 hne]
    exact h.held (i + 1) hi z hz

end RtcClient.Lib.Ring
