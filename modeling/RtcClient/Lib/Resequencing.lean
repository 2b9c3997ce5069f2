import Mathlib.Data.List.ReduceOption
import Mathlib.Data.List.Sort
import RtcClient.Lib.Jitter
/-!
# What a reordering buffer gives out

If every arrival, copies included, is preceded by at most `n` arrivals with a
larger key, then a buffer of more than `n` places gives out, and then holds, each
arrived key once and in key order (`run_resequenced`). So what it gives out does
not depend on the order of the arrivals.
-/

namespace RtcClient.Lib

variable {α κ : Type} [LinearOrder κ] {key : α → κ}

/-! ## Increasing lists -/

/-- An increasing list of elements of another increasing list is a part of it. -/
theorem Increasing.sublist_of_mem {l l' : List α} (h : Increasing key l) (h' : Increasing key l')
    (hm : ∀ x ∈ l, x ∈ l') : l.Sublist l' := by
  induction l' generalizing l with
  | nil =>
    rw [List.eq_nil_iff_forall_not_mem.2 (fun x hx => absurd (hm x hx) (by simp))]
  | cons y ys ih =>
    obtain ⟨hy, hys⟩ := List.pairwise_cons.1 h'
    cases l with
    | nil => exact List.nil_sublist _
    | cons x xs =>
      obtain ⟨hx, hxs⟩ := List.pairwise_cons.1 h
      -- Behind the first element of `l` comes nothing that is not larger than `y`.
      have hrest : ∀ z ∈ xs, z ∈ ys := by
        intro z hz
        rcases List.mem_cons.1 (hm z (by simp [hz])) with rfl | hz'
        · rcases List.mem_cons.1 (hm x (by simp)) with rfl | hx'
          · exact absurd (hx x hz) (lt_irrefl _)
          · exact absurd (hx z hz) (lt_asymm (hy x hx'))
        · exact hz'
      rcases List.mem_cons.1 (hm x (by simp)) with rfl | hxys
      · exact (ih hxs hys hrest).cons_cons x
      · refine (ih h hys ?_).cons y
        intro z hz
        rcases List.mem_cons.1 hz with rfl | hz
        · exact hxys
        · exact hrest z hz

/-- An increasing list is determined by its elements. -/
theorem Increasing.eq_of_mem_iff {l l' : List α} (h : Increasing key l) (h' : Increasing key l')
    (hm : ∀ x, x ∈ l ↔ x ∈ l') : l = l' :=
  (h.sublist_of_mem h' (fun x hx => (hm x).1 hx)).antisymm (h'.sublist_of_mem h (fun x hx => (hm x).2 hx))

/-- Among distinct keys at most one is equal to `k`. -/
theorem length_filter_le {l : List α} (h : (l.map key).Nodup) (k : κ) :
    (l.filter (fun a => k ≤ key a)).length ≤ (l.filter (fun a => k < key a)).length + 1 := by
  induction l with
  | nil => simp
  | cons a l ih =>
    obtain ⟨ha, hl⟩ := List.nodup_cons.1 h
    have ih := ih hl
    rcases lt_trichotomy k (key a) with hk | rfl | hk
    · simp only [List.filter_cons, hk, hk.le, decide_true, if_true, List.length_cons]
      omega
    · -- The rest has no further element with this key.
      have hrest : l.filter (fun b => key a ≤ key b) = l.filter (fun b => key a < key b) := by
        apply List.filter_congr
        intro b hb
        have hne : key a ≠ key b := fun he => ha (List.mem_map.2 ⟨b, hb, he.symm⟩)
        simp only [lt_iff_le_and_ne, hne, ne_eq, not_false_eq_true, and_true]
      simp [hrest]
    · simpa only [List.filter_cons, not_le.2 hk, not_lt.2 hk.le, decide_false, Bool.false_eq_true, if_false] using ih

namespace Jitter

/-! ## Displacement -/

theorem Displaced.mono {m n : Nat} (hmn : m ≤ n) {l : List α} (h : Displaced key m l) : Displaced key n l :=
  fun pre d post he => (h pre d post he).trans hmn

/-- Nothing is late in a list in order. -/
theorem displaced_increasing {l : List α} (h : Increasing key l) (n : Nat) : Displaced key n l := by
  rintro pre d post rfl
  have hpre : pre.filter (fun a => key d < key a) = [] := by
    rw [List.filter_eq_nil_iff]
    intro a ha
    have hlt := (List.pairwise_append.1 h).2.2 a ha d (by simp)
    simpa using hlt.le
  rw [hpre]
  exact Nat.zero_le n

/-- What is left out displaces nothing. -/
theorem Displaced.sublist {n : Nat} {l l' : List α} (h : Displaced key n l') (hs : l.Sublist l') :
    Displaced key n l := by
  rintro pre d post rfl
  obtain ⟨front, back, rfl, hfront, hback⟩ := List.append_sublist_iff.1 hs
  obtain ⟨gap, rest, rfl, hgap, -⟩ := List.cons_sublist_iff.1 hback
  obtain ⟨a, b, rfl⟩ := List.append_of_mem hgap
  have hle := h (front ++ a) d (b ++ rest) (by simp)
  rw [List.filter_append, List.length_append] at hle
  exact ((hfront.filter _).length_le).trans (by omega)

/-! ## Runs -/

theorem release_accepted (n : Nat) (j : Jitter α) : (j.release n).accepted = j.accepted := by
  unfold release
  split <;> rfl

theorem run_concat (n : Nat) (xs : List (Option α)) (x : Option α) :
    (empty : Jitter α).run key n (xs ++ [x]) = ((empty.run key n xs).arrive key x).release n := by
  simp only [run, push, List.foldl_append, List.foldl_cons, List.foldl_nil]

/-- The buffer accepts a part of what arrives. -/
theorem run_accepted_sublist (n : Nat) (xs : List (Option α)) :
    ((empty : Jitter α).run key n xs).accepted.Sublist xs.reduceOption := by
  induction xs using List.reverseRecOn with
  | nil => exact List.nil_sublist _
  | append_singleton xs x ih =>
    rw [run_concat, release_accepted, List.reduceOption_append]
    rcases arrive_cases key (empty.run key n xs) x with ⟨he, -⟩ | ⟨y, rfl, -, he⟩
    · rw [he]
      exact ih.trans (List.sublist_append_left _ _)
    · rw [he]
      exact ih.append (by simp [List.reduceOption])

/-- Once something was given out, all places stay taken. -/
theorem run_full (n : Nat) (xs : List (Option α)) :
    ((empty : Jitter α).run key n xs).released = [] ∨ ((empty : Jitter α).run key n xs).pending.length = n := by
  induction xs using List.reverseRecOn with
  | nil => exact .inl rfl
  | append_singleton xs x ih =>
    have hinv := (@run_inv _ _ _ key) (empty_inv n) xs
    rw [run_concat]
    have hlen := arrive_length hinv.increasing x
    have hgrow : (empty.run key n xs).pending.length ≤ ((empty.run key n xs).arrive key x).pending.length := by
      rcases arrive_cases key (empty.run key n xs) x with ⟨he, -⟩ | ⟨y, -, hy, he⟩
      · rw [he]
      · rw [he, (insertKey_perm hinv.increasing hy).length_eq]
        exact Nat.le_succ _
    have hreleased : ((empty.run key n xs).arrive key x).released = (empty.run key n xs).released := by
      rcases arrive_cases key (empty.run key n xs) x with ⟨he, -⟩ | ⟨y, -, hy, he⟩ <;> rw [he]
    have hb := hinv.bounded
    rcases release_cases n ((empty.run key n xs).arrive key x) with ⟨hn, he⟩ | ⟨y, ys, hn, hp, he⟩
    · rw [he, hreleased]
      rcases ih with h | h
      · exact .inl h
      · exact .inr (by omega)
    · rw [he]
      rw [hp, List.length_cons] at hlen
      exact .inr (by simp only; omega)

/-- An arrival whose key is not held was never accepted: by the time an element is given out, too
many with larger keys have come for a copy of it. -/
theorem not_accepted_again {n : Nat} {j : Jitter α} (hi : Inv key (n + 1) j) (ho : Ordered key (n + 1) j)
    (hnodup : (j.accepted.map key).Nodup) {y : α} (hd : (j.accepted.filter (fun a => key y < key a)).length ≤ n)
    (hy : key y ∉ j.pending.map key) : key y ∉ j.accepted.map key := by
  intro hmem
  have hsplit : key y ∈ (j.released ++ j.pending).map key := (hi.conserved.map key).subset hmem
  rw [List.map_append, List.mem_append] at hsplit
  rcases hsplit with hrel | hpend
  · obtain ⟨r, hr, he⟩ := List.mem_map.1 hrel
    have hmany := ho.many r hr
    rw [he] at hmany
    have hcount := length_filter_le hnodup (key y)
    omega
  · exact hy hpend

/-- Each key is accepted at most once, and each arrived key once. -/
theorem run_accepts {n : Nat} (xs : List (Option α)) (hd : Displaced key n xs.reduceOption) :
    (((empty : Jitter α).run key (n + 1) xs).accepted.map key).Nodup ∧
      ∀ a ∈ xs.reduceOption, key a ∈ ((empty : Jitter α).run key (n + 1) xs).accepted.map key := by
  induction xs using List.reverseRecOn with
  | nil => exact ⟨.nil, fun a ha => absurd ha (by simp [List.reduceOption])⟩
  | append_singleton xs x ih =>
    rw [List.reduceOption_append] at hd ⊢
    obtain ⟨hnodup, hall⟩ := ih hd.of_append
    have hsub := (@run_accepted_sublist _ _ _ key) (n + 1) xs
    have hi := (@run_inv _ _ _ key) (empty_inv (n + 1)) xs
    have ho := (@run_ordered _ _ _ key) (n + 1) xs ((hd.of_append.sublist hsub).mono (Nat.le_succ n))
    rw [run_concat, release_accepted]
    generalize (empty : Jitter α).run key (n + 1) xs = j at *
    rcases arrive_cases key j x with ⟨he, hheld⟩ | ⟨y, rfl, hy, he⟩
    · rw [he]
      refine ⟨hnodup, ?_⟩
      intro a ha
      rcases List.mem_append.1 ha with ha | ha
      · exact hall a ha
      · cases x with
        | none => simp [List.reduceOption] at ha
        | some y =>
          obtain rfl : a = y := by simpa [List.reduceOption] using ha
          have hpend : key a ∈ (j.released ++ j.pending).map key := by
            rw [List.map_append, List.mem_append]
            exact .inr (hheld a rfl)
          exact (hi.conserved.map key).symm.subset hpend
    · rw [he]
      have hlast : (j.accepted.filter (fun a => key y < key a)).length ≤ n :=
        ((hsub.filter _).length_le).trans (hd xs.reduceOption y [] (by simp [List.reduceOption]))
      refine ⟨?_, ?_⟩
      · rw [List.map_append, List.nodup_append]
        refine ⟨hnodup, by simp, ?_⟩
        intro k hk k' hk' hkk
        obtain rfl : k' = key y := by simpa using hk'
        exact not_accepted_again hi ho hnodup hlast hy (hkk ▸ hk)
      · intro a ha
        rw [List.map_append, List.mem_append]
        rcases List.mem_append.1 ha with ha | ha
        · exact .inl (hall a ha)
        · obtain rfl : a = y := by simpa [List.reduceOption] using ha
          exact .inr (by simp)

/-- What was given out and what is held are, together and in this order, the arrived keys, each once
and in increasing order. -/
theorem run_resequenced {n : Nat} (xs : List (Option α)) (hd : Displaced key n xs.reduceOption) :
    let j := (empty : Jitter α).run key (n + 1) xs
    Increasing key (j.released ++ j.pending) ∧ (∀ a ∈ j.released ++ j.pending, a ∈ xs.reduceOption) ∧
      ∀ a ∈ xs.reduceOption, key a ∈ (j.released ++ j.pending).map key := by
  have hsub := (@run_accepted_sublist _ _ _ key) (n + 1) xs
  have hi := (@run_inv _ _ _ key) (empty_inv (n + 1)) xs
  have ho := (@run_ordered _ _ _ key) (n + 1) xs ((hd.sublist hsub).mono (Nat.le_succ n))
  obtain ⟨hnodup, hall⟩ := run_accepts xs hd
  intro j
  have hdistinct : ((j.released ++ j.pending).map key).Nodup := (hi.conserved.map key).nodup_iff.1 hnodup
  have hsorted : (j.released ++ j.pending).Pairwise (fun a b => key a ≤ key b) :=
    List.pairwise_append.2 ⟨ho.sorted, hi.increasing.imp le_of_lt, fun r hr p hp => ho.below r hr p hp⟩
  refine ⟨?_, fun a ha => hsub.subset (hi.conserved.symm.subset ha),
    fun a ha => (hi.conserved.map key).subset (hall a ha)⟩
  exact hsorted.imp₂ (fun a b hle hne => lt_of_le_of_ne hle hne) (List.pairwise_map.1 hdistinct)

end Jitter

end RtcClient.Lib
