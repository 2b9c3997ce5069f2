import Mathlib.Data.List.Basic
import Mathlib.Order.Defs.Unbundled
/-!
# Ordered maps

`std::map` as a list of keys and values in increasing order of the keys.
-/

namespace RtcClient.Lib.Assoc

variable {K V : Type} [DecidableEq K]

/-- The value stored under a key. -/
def find (l : List (K × V)) (k : K) : Option V := (l.find? (fun e => e.1 = k)).map (·.2)

/-- Store a value under a key, in place of the one that is there. -/
def insert [LT K] [DecidableLT K] (k : K) (v : V) : List (K × V) → List (K × V)
  | [] => [(k, v)]
  | e :: l => if k < e.1 then (k, v) :: e :: l else if k = e.1 then (k, v) :: l else e :: insert k v l

def erase (l : List (K × V)) (k : K) : List (K × V) := l.filter (fun e => e.1 ≠ k)

theorem find_eq_none {l : List (K × V)} {k : K} : find l k = none ↔ ∀ e ∈ l, e.1 ≠ k := by
  simp [find]

theorem mem_of_find {l : List (K × V)} {k : K} {v : V} (h : find l k = some v) : (k, v) ∈ l := by
  unfold find at h
  obtain ⟨e, he, rfl⟩ := Option.map_eq_some_iff.1 h
  have hk : e.1 = k := by simpa using List.find?_some he
  have hm := List.mem_of_find?_eq_some he
  rw [← hk]
  exact hm

@[simp] theorem find_nil (k : K) : find ([] : List (K × V)) k = none := rfl

theorem find_cons (e : K × V) (l : List (K × V)) (k : K) :
    find (e :: l) k = if e.1 = k then some e.2 else find l k := by
  unfold find
  rw [List.find?_cons]
  split <;> rename_i h <;> simp_all

theorem isSome_find {l : List (K × V)} {k : K} : (find l k).isSome ↔ ∃ e ∈ l, e.1 = k := by
  rw [← Option.ne_none_iff_isSome, Ne, find_eq_none]
  push Not
  rfl

/-- Under distinct keys every value is found. -/
theorem find_of_mem {l : List (K × V)} (hd : (l.map (·.1)).Nodup) {e : K × V} (he : e ∈ l) :
    find l e.1 = some e.2 := by
  induction l with
  | nil => cases he
  | cons d l ih =>
    rw [List.map_cons, List.nodup_cons] at hd
    rw [find_cons]
    rcases List.mem_cons.1 he with rfl | he
    · rw [if_pos rfl]
    · rw [if_neg, ih hd.2 he]
      intro h
      exact hd.1 (List.mem_map.2 ⟨e, he, h.symm⟩)

theorem find_erase (l : List (K × V)) (k k' : K) : find (erase l k) k' = if k = k' then none else find l k' := by
  induction l with
  | nil => split <;> rfl
  | cons e l ih =>
    have hcons : erase (e :: l) k = if e.1 = k then erase l k else e :: erase l k := by
      by_cases he : e.1 = k <;> simp [erase, he]
    rw [hcons, find_cons]
    by_cases he : e.1 = k
    · rw [if_pos he, ih, he]
      split <;> rfl
    · rw [if_neg he, find_cons, ih]
      by_cases hk : k = k'
      · subst hk
        simp [he]
      · simp [hk]

/-- Values changed in place. -/
theorem find_map {W : Type} (f : K → V → W) (l : List (K × V)) (k : K) :
    find (l.map fun e => (e.1, f e.1 e.2)) k = (find l k).map (f k) := by
  induction l with
  | nil => rfl
  | cons e l ih =>
    rw [List.map_cons, find_cons, find_cons, ih]
    by_cases he : e.1 = k
    · rw [if_pos he, if_pos he, he]
      rfl
    · rw [if_neg he, if_neg he]

/-- If each entry gives results under its own key, then the results under a key are those of its entry. -/
theorem filter_flatMap_key {D : Type} (key : D → K) (g : K × V → List D) {l : List (K × V)}
    (hd : (l.map (·.1)).Nodup) (hkey : ∀ e ∈ l, ∀ d ∈ g e, key d = e.1) (k : K) :
    (l.flatMap g).filter (fun d => key d = k) = ((find l k).map (fun v => g (k, v))).getD [] := by
  induction l with
  | nil => rfl
  | cons e l ih =>
    rw [List.map_cons, List.nodup_cons] at hd
    have hrest := ih hd.2 (fun e' he' => hkey e' (by simp [he']))
    rw [List.flatMap_cons, List.filter_append, hrest, find_cons]
    by_cases he : e.1 = k
    · have hall : (g e).filter (fun d => key d = k) = g e :=
        List.filter_eq_self.2 (fun d hd' => by simp [hkey e (by simp) d hd', he])
      have hnone : find l k = none :=
        find_eq_none.2 (fun e' he' h => hd.1 (List.mem_map.2 ⟨e', he', h.trans he.symm⟩))
      rw [hall, hnone, if_pos he, ← he]
      simp
    · have hnone : (g e).filter (fun d => key d = k) = [] :=
        List.filter_eq_nil_iff.2 (fun d hd' => by simp [hkey e (by simp) d hd', he])
      rw [hnone, if_neg he, List.nil_append]

section
variable [LT K] [DecidableLT K]

/-- What was stored last under a key is found; other keys are as before. -/
theorem find_insert (k : K) (v : V) (l : List (K × V)) (k' : K) :
    find (insert k v l) k' = if k = k' then some v else find l k' := by
  induction l with
  | nil => rw [insert, find_cons]
  | cons e l ih =>
    unfold insert
    split
    · rw [find_cons]
    split
    · rename_i h
      rw [find_cons, find_cons, ← h]
      split <;> rfl
    · rename_i h
      rw [find_cons, find_cons, ih]
      by_cases hk : k = k'
      · rw [if_pos hk, if_pos hk, if_neg (fun he => h (hk.trans he.symm))]
      · rw [if_neg hk, if_neg hk]

theorem mem_of_mem_insert {k : K} {v : V} {l : List (K × V)} {e : K × V} (h : e ∈ insert k v l) :
    e = (k, v) ∨ e ∈ l := by
  induction l with
  | nil => simpa [insert] using h
  | cons d l ih =>
    unfold insert at h
    split at h
    · simpa using h
    split at h
    · rcases List.mem_cons.1 h with h | h
      · exact .inl h
      · exact .inr (by simp [h])
    · rcases List.mem_cons.1 h with h | h
      · exact .inr (by simp [h])
      · exact (ih h).imp id (fun h => by simp [h])

/-- Storing under a new key leaves the other values there. -/
theorem insert_new_perm {k : K} (v : V) {l : List (K × V)} (hk : ∀ e ∈ l, e.1 ≠ k) :
    (insert k v l).Perm ((k, v) :: l) := by
  induction l with
  | nil => exact .refl _
  | cons d l ih =>
    have hd : k ≠ d.1 := fun h => hk d (by simp) h.symm
    unfold insert
    rw [if_neg hd]
    split
    · exact .refl _
    · exact ((ih fun e he => hk e (by simp [he])).cons d).trans (.swap (k, v) d l)

theorem mem_insert_new {k : K} {v : V} {l : List (K × V)} (hk : ∀ e ∈ l, e.1 ≠ k) (e : K × V) :
    e ∈ insert k v l ↔ e = (k, v) ∨ e ∈ l := by
  rw [(insert_new_perm v hk).mem_iff, List.mem_cons]

theorem length_insert_new {k : K} {v : V} {l : List (K × V)} (hk : ∀ e ∈ l, e.1 ≠ k) :
    (insert k v l).length = l.length + 1 := (insert_new_perm v hk).length_eq

/-- Changing the values before or after they are stored. -/
theorem insert_map {W : Type} (f : V → W) (k : K) (v : V) (l : List (K × V)) :
    insert k (f v) (l.map fun e => (e.1, f e.2)) = (insert k v l).map fun e => (e.1, f e.2) := by
  induction l with
  | nil => rfl
  | cons d l ih =>
    unfold insert
    rw [List.map_cons]
    dsimp only
    split
    · rfl
    split
    · rfl
    · rw [ih, List.map_cons]

theorem foldl_insert_map {W : Type} (f : V → W) (es l : List (K × V)) :
    (es.map fun e => (e.1, f e.2)).foldl (fun l e => insert e.1 e.2 l) (l.map fun e => (e.1, f e.2)) =
      (es.foldl (fun l e => insert e.1 e.2 l) l).map fun e => (e.1, f e.2) := by
  induction es generalizing l with
  | nil => rfl
  | cons e es ih =>
    rw [List.map_cons, List.foldl_cons, List.foldl_cons]
    dsimp only
    rw [insert_map]
    exact ih (insert e.1 e.2 l)

/-- Entries with distinct keys stored one after the other. -/
theorem find_foldl_insert {es : List (K × V)} (hd : (es.map (·.1)).Nodup) (l : List (K × V)) (k : K) :
    find (es.foldl (fun l e => insert e.1 e.2 l) l) k = (find es k).or (find l k) := by
  induction es generalizing l with
  | nil => rfl
  | cons e es ih =>
    rw [List.map_cons, List.nodup_cons] at hd
    rw [List.foldl_cons, ih hd.2, find_insert, find_cons]
    by_cases hk : e.1 = k
    · have hnone : find es k = none := find_eq_none.2 fun d hd' h => hd.1 (List.mem_map.2 ⟨d, hd', h.trans hk.symm⟩)
      rw [if_pos hk, if_pos hk, hnone]
      rfl
    · rw [if_neg hk, if_neg hk]

theorem foldl_insert_perm {es : List (K × V)} (hd : (es.map (·.1)).Nodup) {l : List (K × V)}
    (hl : ∀ e ∈ es, ∀ d ∈ l, d.1 ≠ e.1) : (es.foldl (fun l e => insert e.1 e.2 l) l).Perm (es ++ l) := by
  induction es generalizing l with
  | nil => exact .refl _
  | cons e es ih =>
    rw [List.map_cons, List.nodup_cons] at hd
    have hnew := insert_new_perm e.2 (hl e (by simp))
    have hl' : ∀ e' ∈ es, ∀ d ∈ insert e.1 e.2 l, d.1 ≠ e'.1 := by
      intro e' he' d hd'
      rcases List.mem_cons.1 (hnew.mem_iff.1 hd') with rfl | hd'
      · intro h
        exact hd.1 (List.mem_map.2 ⟨e', he', h.symm⟩)
      · exact hl e' (by simp [he']) d hd'
    exact (ih hd.2 hl').trans ((hnew.append_left es).trans List.perm_middle)

theorem length_foldl_insert {es : List (K × V)} (hd : (es.map (·.1)).Nodup) {l : List (K × V)}
    (hl : ∀ e ∈ es, ∀ d ∈ l, d.1 ≠ e.1) :
    (es.foldl (fun l e => insert e.1 e.2 l) l).length = l.length + es.length := by
  rw [(foldl_insert_perm hd hl).length_eq, List.length_append, Nat.add_comm]

end

/-! ## Sorted entries -/

section
variable [LT K]

/-- The keys increase, as they do in every `std::map`. -/
def Sorted (l : List (K × V)) : Prop := l.Pairwise (fun d e => d.1 < e.1)

variable [DecidableLT K] [IsStrictTotalOrder K (· < ·)]

theorem insert_last {l : List (K × V)} {k : K} (h : ∀ e ∈ l, e.1 < k) (v : V) : insert k v l = l ++ [(k, v)] := by
  induction l with
  | nil => rfl
  | cons d l ih =>
    have hd : d.1 < k := h d (by simp)
    have hlt : ¬ k < d.1 := fun hk => irrefl_of (· < ·) k (trans_of (· < ·) hk hd)
    have hne : k ≠ d.1 := by
      rintro rfl
      exact hlt hd
    rw [insert, if_neg hlt, if_neg hne, ih (fun e he => h e (by simp [he]))]
    rfl

/-- Storing keeps the keys in order. -/
theorem sorted_insert {l : List (K × V)} (h : Sorted l) (k : K) (v : V) : Sorted (insert k v l) := by
  induction l with
  | nil => exact List.pairwise_singleton _ _
  | cons d l ih =>
    obtain ⟨hd, hl⟩ := List.pairwise_cons.1 h
    unfold insert
    split
    · rename_i hlt
      refine List.pairwise_cons.2 ⟨fun e he => ?_, h⟩
      rcases List.mem_cons.1 he with rfl | he
      · exact hlt
      · exact trans_of (· < ·) hlt (hd e he)
    split
    · rename_i heq
      exact List.pairwise_cons.2 ⟨fun e he => heq ▸ hd e he, hl⟩
    · rename_i hlt hne
      refine List.pairwise_cons.2 ⟨fun e he => ?_, ih hl⟩
      rcases mem_of_mem_insert he with rfl | he
      · rcases trichotomous_of (· < ·) d.1 k with h | h | h
        · exact h
        · exact absurd h.symm hne
        · exact absurd h hlt
      · exact hd e he

theorem sorted_foldl_insert (es : List (K × V)) {l : List (K × V)} (h : Sorted l) :
    Sorted (es.foldl (fun l e => insert e.1 e.2 l) l) := by
  induction es generalizing l with
  | nil => exact h
  | cons e es ih => exact ih (sorted_insert h e.1 e.2)

omit [DecidableEq K] [DecidableLT K] in
/-- Sorted keys are distinct. -/
theorem Sorted.nodup {l : List (K × V)} (h : Sorted l) : (l.map (·.1)).Nodup := by
  rw [List.Nodup, List.pairwise_map]
  refine List.Pairwise.imp (fun hlt he => ?_) h
  rw [he] at hlt
  exact irrefl_of (· < ·) _ hlt

/-- Sorted entries stored one after the other stay as they are. -/
theorem foldl_insert_sorted {l es : List (K × V)} (h : Sorted (l ++ es)) :
    es.foldl (fun l e => insert e.1 e.2 l) l = l ++ es := by
  induction es generalizing l with
  | nil => rw [List.foldl_nil, List.append_nil]
  | cons e es ih =>
    have he : ∀ d ∈ l, d.1 < e.1 := fun d hd => (List.pairwise_append.1 h).2.2 d hd e (by simp)
    rw [List.foldl_cons, insert_last he, ih] <;> rw [List.append_assoc] <;> first | rfl | exact h

end

end RtcClient.Lib.Assoc
