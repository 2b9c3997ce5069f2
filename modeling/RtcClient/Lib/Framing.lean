import Mathlib.Data.List.Basic
/-!
# Frames of a stream

A stream is cut into frames from the front: `next` finds the first frame, or says
that it has not come as a whole yet. It must not change its mind when more comes.
Then the frames do not depend on where the stream is cut (`split_append`), and a
stream of encoded frames gives back the frames (`split_encoded`).
-/

namespace RtcClient.Lib

variable {β φ : Type}

/-- A way to find the first frame of a stream, and how long it is. -/
structure Framing (β φ : Type) where
  next : List β → Option (φ × Nat)
  takes : ∀ {l : List β} {f : φ} {k : Nat}, next l = some (f, k) → 0 < k ∧ k ≤ l.length
  stable : ∀ {l : List β} {f : φ} {k : Nat}, next l = some (f, k) → ∀ more, next (l ++ more) = some (f, k)

namespace Framing

variable (F : Framing β φ)

/-- The frames at the front, and what is left behind them. -/
def split (l : List β) : List φ × List β :=
  match _h : F.next l with
  | none => ([], l)
  | some (f, k) => (f :: (split (l.drop k)).1, (split (l.drop k)).2)
termination_by l.length
decreasing_by all_goals have := F.takes _h; rw [List.length_drop]; omega

theorem split_none {l : List β} (h : F.next l = none) : F.split l = ([], l) := by
  rw [split]
  split
  · rfl
  · rename_i hs
    rw [h] at hs
    cases hs

theorem split_some {l : List β} {f : φ} {k : Nat} (h : F.next l = some (f, k)) :
    F.split l = (f :: (F.split (l.drop k)).1, (F.split (l.drop k)).2) := by
  rw [split]
  split
  · rename_i hs
    rw [h] at hs
    cases hs
  · rename_i g j hs
    rw [h] at hs
    obtain ⟨rfl, rfl⟩ : f = g ∧ k = j := by simpa using hs
    rfl

/-- What is left does not begin with a frame. -/
theorem next_rest (l : List β) : F.next (F.split l).2 = none := by
  fun_induction F.split l with
  | case1 l h => exact h
  | case2 l f k h ih => exact ih

/-- Frames that were found stay when more comes. -/
theorem split_append (l m : List β) :
    F.split (l ++ m) =
      ((F.split l).1 ++ (F.split ((F.split l).2 ++ m)).1, (F.split ((F.split l).2 ++ m)).2) := by
  fun_induction F.split l with
  | case1 l h => simp
  | case2 l f k h ih =>
    have hk := F.takes h
    rw [F.split_some (F.stable h m), List.drop_append_of_le_length hk.2, ih]
    rfl

/-- A frame that was encoded. -/
theorem split_cons {bs l : List β} {f : φ} (h : F.next (bs ++ l) = some (f, bs.length)) :
    F.split (bs ++ l) = (f :: (F.split l).1, (F.split l).2) := by
  rw [F.split_some h, List.drop_left]

/-- Encoded frames, and behind them something that is not yet a frame. -/
theorem split_encoded {τ : Type} (encode : τ → List β) (value : τ → φ) {ts : List τ}
    (h : ∀ t ∈ ts, ∀ more, F.next (encode t ++ more) = some (value t, (encode t).length)) {rest : List β}
    (hrest : F.next rest = none) : F.split (ts.flatMap encode ++ rest) = (ts.map value, rest) := by
  induction ts with
  | nil => exact F.split_none hrest
  | cons t ts ih =>
    rw [List.flatMap_cons, List.append_assoc, F.split_cons (h t (by simp) _), ih (fun u hu => h u (by simp [hu])),
      List.map_cons]

end Framing

end RtcClient.Lib
