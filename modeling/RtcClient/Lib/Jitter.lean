import Mathlib.Order.Lattice
import Mathlib.Data.List.Perm.Subperm
import Mathlib.Data.List.Induction
import Mathlib.Order.Basic
/-!
# A bounded reordering buffer

Elements with a key arrive in some order. The buffer holds at most `n` of them in
increasing key order, drops an arrival whose key it already holds, and gives out
its first element when one more would not fit. The state also logs what was
accepted and what was released, so that the properties of whole runs are
invariants of the state.

`run_inv`: nothing is lost or invented. `run_sorted`: if every accepted element
was preceded by at most `n` accepted elements with a larger key, the elements are
released in key order.
-/

namespace RtcClient.Lib

variable {α κ : Type} [LinearOrder κ] (key : α → κ)

/-- Strictly increasing keys. -/
def Increasing (l : List α) : Prop := l.Pairwise (fun a b => key a < key b)

/-- Insert in key order; an element whose key is held is dropped. -/
def insertKey (x : α) : List α → List α
  | [] => [x]
  | y :: ys => if key x < key y then x :: y :: ys else if key y < key x then y :: insertKey x ys else y :: ys

/-- The buffer, with a log of the accepted and the released elements. -/
structure Jitter (α : Type) where
  pending : List α
  accepted : List α
  released : List α

namespace Jitter

def empty : Jitter α := ⟨[], [], []⟩

/-- An arrival, if any, is accepted unless its key is held. -/
def arrive (j : Jitter α) : Option α → Jitter α
  | none => j
  | some x =>
    if key x ∈ j.pending.map key then j
    else { j with pending := insertKey key x j.pending, accepted := j.accepted ++ [x] }

/-- Give out the first element if more than `n` are held. -/
def release (n : Nat) (j : Jitter α) : Jitter α :=
  if n < j.pending.length then
    { j with pending := j.pending.tail, released := j.released ++ j.pending.head?.toList }
  else j

def push (n : Nat) (j : Jitter α) (x : Option α) : Jitter α := (j.arrive key x).release n

def run (n : Nat) (j : Jitter α) (xs : List (Option α)) : Jitter α := xs.foldl (push key n) j

end Jitter

/-! ## Ordered insertion -/

variable {key}

theorem increasing_map {l : List α} : Increasing key l ↔ (l.map key).Pairwise (· < ·) := by
  rw [Increasing, List.pairwise_map]

/-- A new key goes between the smaller and the larger ones. -/
theorem insertKey_split {x : α} {l : List α} (hl : Increasing key l) (hx : key x ∉ l.map key) :
    ∃ a b, l = a ++ b ∧ (∀ y ∈ a, key y < key x) ∧ (∀ y ∈ b, key x < key y) ∧ insertKey key x l = a ++ x :: b := by
  induction l with
  | nil => exact ⟨[], [], rfl, by simp, by simp, rfl⟩
  | cons y ys ih =>
    simp only [List.map_cons, List.mem_cons, not_or] at hx
    obtain ⟨hy, hys⟩ := List.pairwise_cons.1 hl
    by_cases h : key x < key y
    · refine ⟨[], y :: ys, rfl, by simp, ?_, by simp [insertKey, h]⟩
      intro z hz
      rcases List.mem_cons.1 hz with rfl | hz
      · exact h
      · exact h.trans (hy z hz)
    · have h' : key y < key x := lt_of_le_of_ne (not_lt.1 h) (Ne.symm hx.1)
      obtain ⟨a, b, rfl, ha, hb, he⟩ := ih hys hx.2
      refine ⟨y :: a, b, rfl, ?_, hb, by simp [insertKey, h, h', he]⟩
      intro z hz
      rcases List.mem_cons.1 hz with rfl | hz
      · exact h'
      · exact ha z hz

/-- The split determines the insertion. -/
theorem insertKey_append {x : α} {a b : List α} (ha : ∀ y ∈ a, key y < key x) (hb : ∀ y ∈ b, key x < key y) :
    insertKey key x (a ++ b) = a ++ x :: b := by
  induction a with
  | nil =>
    cases b with
    | nil => rfl
    | cons y ys => simp [insertKey, hb y]
  | cons y ys ih =>
    have hy : key y < key x := ha y (by simp)
    simp [insertKey, hy, not_lt.2 hy.le, ih (fun z hz => ha z (by simp [hz]))]

theorem not_mem_split (key : α → κ) {x : α} {a b : List α} (ha : ∀ y ∈ a, key y < key x) (hb : ∀ y ∈ b, key x < key y) :
    key x ∉ (a ++ b).map key := by
  intro h
  obtain ⟨y, hy, he⟩ := List.mem_map.1 h
  rcases List.mem_append.1 hy with hy | hy
  · exact (ha y hy).ne he
  · exact (hb y hy).ne' he

theorem increasing_split {x : α} {a b : List α} (h : Increasing key (a ++ b)) (ha : ∀ y ∈ a, key y < key x)
    (hb : ∀ y ∈ b, key x < key y) : Increasing key (a ++ x :: b) := by
  obtain ⟨h1, h2, h3⟩ := List.pairwise_append.1 h
  refine List.pairwise_append.2 ⟨h1, List.pairwise_cons.2 ⟨hb, h2⟩, ?_⟩
  intro y hy z hz
  rcases List.mem_cons.1 hz with rfl | hz
  · exact ha y hy
  · exact h3 y hy z hz

theorem insertKey_increasing {x : α} {l : List α} (hl : Increasing key l) (hx : key x ∉ l.map key) :
    Increasing key (insertKey key x l) := by
  obtain ⟨a, b, rfl, ha, hb, he⟩ := insertKey_split hl hx
  rw [he]
  exact increasing_split hl ha hb

theorem insertKey_perm {x : α} {l : List α} (hl : Increasing key l) (hx : key x ∉ l.map key) :
    (insertKey key x l).Perm (x :: l) := by
  obtain ⟨a, b, rfl, -, -, he⟩ := insertKey_split hl hx
  rw [he]
  exact List.perm_middle

namespace Jitter

/-! ## The invariant -/

/-- What every reachable buffer satisfies. -/
structure Inv (key : α → κ) (n : Nat) (j : Jitter α) : Prop where
  increasing : Increasing key j.pending
  bounded : j.pending.length ≤ n
  conserved : j.accepted.Perm (j.released ++ j.pending)

theorem empty_inv (n : Nat) : Inv key n (empty : Jitter α) :=
  ⟨.nil, Nat.zero_le n, .refl _⟩

/-- An arrival leaves the buffer alone or is inserted and logged. -/
theorem arrive_cases (key : α → κ) (j : Jitter α) (x : Option α) :
    (j.arrive key x = j ∧ ∀ y, x = some y → key y ∈ j.pending.map key) ∨
      ∃ y, x = some y ∧ key y ∉ j.pending.map key ∧
        j.arrive key x = { j with pending := insertKey key y j.pending, accepted := j.accepted ++ [y] } := by
  cases x with
  | none => exact .inl ⟨rfl, by simp⟩
  | some y =>
    by_cases h : key y ∈ j.pending.map key
    · exact .inl ⟨by simp only [arrive, if_pos h], by rintro _ ⟨⟩; exact h⟩
    · exact .inr ⟨y, rfl, h, by simp only [arrive, if_neg h]⟩

theorem arrive_increasing {j : Jitter α} (h : Increasing key j.pending) (x : Option α) :
    Increasing key (j.arrive key x).pending := by
  rcases arrive_cases key j x with ⟨he, -⟩ | ⟨y, -, hy, he⟩ <;> rw [he]
  · exact h
  · exact insertKey_increasing h hy

theorem arrive_length {j : Jitter α} (h : Increasing key j.pending) (x : Option α) :
    (j.arrive key x).pending.length ≤ j.pending.length + 1 := by
  rcases arrive_cases key j x with ⟨he, -⟩ | ⟨y, -, hy, he⟩ <;> rw [he]
  · exact Nat.le_succ _
  · exact Nat.le_of_eq (insertKey_perm h hy).length_eq

theorem arrive_conserved {j : Jitter α} (h : Increasing key j.pending)
    (hc : j.accepted.Perm (j.released ++ j.pending)) (x : Option α) :
    (j.arrive key x).accepted.Perm ((j.arrive key x).released ++ (j.arrive key x).pending) := by
  rcases arrive_cases key j x with ⟨he, -⟩ | ⟨y, -, hy, he⟩ <;> rw [he]
  · exact hc
  · have h1 : (j.accepted ++ [y]).Perm (j.released ++ (j.pending ++ [y])) := by
      rw [← List.append_assoc]; exact hc.append_right _
    have h2 : (j.pending ++ [y]).Perm (insertKey key y j.pending) :=
      (List.perm_append_singleton _ _).trans (insertKey_perm h hy).symm
    exact h1.trans (h2.append_left _)

/-- A release moves the first pending element to the released ones. -/
theorem release_cases (n : Nat) (j : Jitter α) :
    (j.pending.length ≤ n ∧ j.release n = j) ∨
      ∃ y ys, n ≤ ys.length ∧ j.pending = y :: ys ∧
        j.release n = { j with pending := ys, released := j.released ++ [y] } := by
  unfold release
  by_cases h : n < j.pending.length
  · right
    cases hp : j.pending with
    | nil => simp [hp] at h
    | cons y ys =>
      rw [hp, List.length_cons] at h
      exact ⟨y, ys, by omega, rfl, by simp [show n < ys.length + 1 by omega]⟩
  · exact .inl ⟨by omega, by simp [h]⟩

theorem push_increasing {j : Jitter α} (h : Increasing key j.pending) (n : Nat) (x : Option α) :
    Increasing key (j.push key n x).pending := by
  have hi := arrive_increasing h x
  unfold push
  rcases release_cases n (j.arrive key x) with ⟨-, he⟩ | ⟨y, ys, -, hp, he⟩
  · rwa [he]
  · rw [he]
    rw [hp] at hi
    exact (List.pairwise_cons.1 hi).2

theorem push_inv {n : Nat} {j : Jitter α} (h : Inv key n j) (x : Option α) : Inv key n (j.push key n x) := by
  have hl := arrive_length h.increasing x
  have hc := arrive_conserved h.increasing h.conserved x
  have hb := h.bounded
  refine ⟨push_increasing h.increasing n x, ?_, ?_⟩ <;> unfold push <;>
    rcases release_cases n (j.arrive key x) with ⟨hn, he⟩ | ⟨y, ys, -, hp, he⟩ <;> rw [he]
  · exact hn
  · rw [hp, List.length_cons] at hl; simp only; omega
  · exact hc
  · rw [hp] at hc
    simpa using hc

/-- Every run keeps the invariant. -/
theorem run_inv {n : Nat} {j : Jitter α} (h : Inv key n j) (xs : List (Option α)) : Inv key n (j.run key n xs) := by
  induction xs generalizing j with
  | nil => exact h
  | cons x xs ih => exact ih (push_inv h x)

/-! ## Released in order -/

/-- Every element was preceded by at most `n` elements with a larger key. -/
def Displaced (key : α → κ) (n : Nat) (l : List α) : Prop :=
  ∀ pre d post, l = pre ++ d :: post → (pre.filter (fun a => key d < key a)).length ≤ n

theorem displaced_iff {n : Nat} {l : List α} :
    Displaced key n l ↔ ∀ i : Fin l.length, ((l.take i).filter (fun a => key l[i] < key a)).length ≤ n := by
  constructor
  · intro h i
    exact h (l.take i) l[i] (l.drop (i + 1)) (by simp)
  · rintro h pre d post rfl
    simpa using h ⟨pre.length, by simp⟩

instance (key : α → κ) (n : Nat) (l : List α) : Decidable (Displaced key n l) :=
  decidable_of_iff _ displaced_iff.symm

theorem Displaced.of_append {n : Nat} {a b : List α} (h : Displaced key n (a ++ b)) : Displaced key n a := by
  rintro pre d post rfl
  exact h pre d (post ++ b) (by simp)

theorem Displaced.last {n : Nat} {a : List α} {d : α} (h : Displaced key n (a ++ [d])) :
    (a.filter (fun x => key d < key x)).length ≤ n := h a d [] rfl

/-- The released elements are in order, none is larger than a pending one, and
for each of them more than `n` accepted elements are at least as large. -/
structure Ordered (key : α → κ) (n : Nat) (j : Jitter α) : Prop where
  sorted : j.released.Pairwise (fun a b => key a ≤ key b)
  below : ∀ r ∈ j.released, ∀ p ∈ j.pending, key r ≤ key p
  many : ∀ r ∈ j.released, n < (j.accepted.filter (fun a => key r ≤ key a)).length

theorem empty_ordered (n : Nat) : Ordered key n (empty : Jitter α) :=
  ⟨.nil, by simp [empty], by simp [empty]⟩

/-- An accepted element is not smaller than a released one: too many larger ones
would have come before it. -/
theorem Ordered.le_accepted {n : Nat} {j : Jitter α} (ho : Ordered key n j) {y : α}
    (hd : (j.accepted.filter (fun x => key y < key x)).length ≤ n) : ∀ r ∈ j.released, key r ≤ key y := by
  intro r hr
  by_contra hlt
  rw [not_le] at hlt
  have hsub : (j.accepted.filter (fun a => key r ≤ key a)).length ≤
      (j.accepted.filter (fun a => key y < key a)).length :=
    (List.monotone_filter_right j.accepted
      (fun a ha => by simpa using lt_of_lt_of_le hlt (by simpa using ha))).length_le
  have := ho.many r hr
  omega

theorem arrive_ordered {n : Nat} {j : Jitter α} (hi : Inv key n j) (ho : Ordered key n j) (x : Option α)
    (hd : Displaced key n (j.arrive key x).accepted) : Ordered key n (j.arrive key x) := by
  rcases arrive_cases key j x with ⟨he, -⟩ | ⟨y, -, hy, he⟩ <;> rw [he] at hd ⊢
  · exact ho
  · refine ⟨ho.sorted, ?_, ?_⟩
    · intro r hr p hp
      rcases List.mem_cons.1 ((insertKey_perm hi.increasing hy).subset hp) with rfl | hp
      · exact ho.le_accepted hd.last r hr
      · exact ho.below r hr p hp
    · intro r hr
      have := ho.many r hr
      simp only [List.filter_append, List.length_append]
      omega

/-- The first of more than `n` pending elements may be released. -/
theorem Ordered.release_head {n : Nat} {j : Jitter α} {y : α} {ys : List α} (ho : Ordered key n j)
    (hi : Increasing key j.pending) (hc : j.accepted.Perm (j.released ++ j.pending)) (hp : j.pending = y :: ys)
    (hn : n ≤ ys.length) : Ordered key n { j with pending := ys, released := j.released ++ [y] } := by
  rw [hp] at hi hc
  obtain ⟨hy, -⟩ := List.pairwise_cons.1 hi
  refine ⟨?_, ?_, ?_⟩
  · refine List.pairwise_append.2 ⟨ho.sorted, List.pairwise_singleton _ _, ?_⟩
    intro r hr z hz
    rw [List.mem_singleton] at hz; subst hz
    exact ho.below r hr z (by simp [hp])
  · intro r hr p hpm
    rcases List.mem_append.1 hr with hr | hr
    · exact ho.below r hr p (by simp [hp, hpm])
    · rw [List.mem_singleton] at hr; subst hr
      exact (hy p hpm).le
  · intro r hr
    rcases List.mem_append.1 hr with hr | hr
    · exact ho.many r hr
    · rw [List.mem_singleton] at hr; subst hr
      have hall : ((r :: ys).filter (fun a => key r ≤ key a)) = r :: ys :=
        List.filter_eq_self.2 (fun a ha => by
          rcases List.mem_cons.1 ha with rfl | ha
          · simp
          · simpa using (hy a ha).le)
      have hlen := (hc.filter (fun a => key r ≤ key a)).length_eq
      rw [List.filter_append, hall, List.length_append, List.length_cons] at hlen
      simp only
      omega

theorem push_ordered {n : Nat} {j : Jitter α} (hi : Inv key n j) (ho : Ordered key n j) (x : Option α)
    (hd : Displaced key n (j.push key n x).accepted) : Ordered key n (j.push key n x) := by
  unfold push at hd ⊢
  rcases release_cases n (j.arrive key x) with ⟨-, he⟩ | ⟨y, ys, hn, hp, he⟩
  · rw [he] at hd ⊢
    exact arrive_ordered hi ho x hd
  · rw [he] at hd ⊢
    exact (arrive_ordered hi ho x hd).release_head (arrive_increasing hi.increasing x)
      (arrive_conserved hi.increasing hi.conserved x) hp hn

theorem push_accepted (key : α → κ) (n : Nat) (j : Jitter α) (x : Option α) :
    ∃ t, (j.push key n x).accepted = j.accepted ++ t := by
  have hr : ∀ k : Jitter α, (k.release n).accepted = k.accepted := by
    intro k; unfold release; split <;> rfl
  rw [push, hr]
  rcases arrive_cases key j x with ⟨he, -⟩ | ⟨y, -, -, he⟩ <;> rw [he]
  · exact ⟨[], by simp⟩
  · exact ⟨[y], rfl⟩

/-- Bounded displacement in, key order out. -/
theorem run_ordered (n : Nat) (xs : List (Option α))
    (hd : Displaced key n ((empty : Jitter α).run key n xs).accepted) : Ordered key n (empty.run key n xs) := by
  induction xs using List.reverseRecOn with
  | nil => exact empty_ordered n
  | append_singleton xs x ih =>
    simp only [run, List.foldl_append, List.foldl_cons, List.foldl_nil] at hd ⊢
    obtain ⟨t, ht⟩ := push_accepted key n (xs.foldl (push key n) empty) x
    exact push_ordered (run_inv (empty_inv n) xs) (ih (ht ▸ hd).of_append) x hd

/-- The elements are released in key order. -/
theorem run_sorted (n : Nat) (xs : List (Option α))
    (hd : Displaced key n ((empty : Jitter α).run key n xs).accepted) :
    (empty.run key n xs).released.Pairwise (fun a b => key a ≤ key b) :=
  (run_ordered n xs hd).sorted

end Jitter

end RtcClient.Lib
