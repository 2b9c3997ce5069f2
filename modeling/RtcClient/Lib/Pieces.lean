import Mathlib.Data.List.Infix
/-!
# The pieces of a list

A list is cut at each occurrence of a pattern, from left to right and without overlaps.
The pieces joined with the pattern are the list again (`intercalate_pieces`), and no piece
contains the pattern (`not_infix_piece`).
-/

namespace RtcClient.Lib

variable {α : Type} [BEq α] [LawfulBEq α] {pat s a rest : List α}

/-! ## The first occurrence -/

/-- A cut is at an occurrence, and there is none further left. -/
theorem dropInfix_some_iff :
    s.dropInfix? pat = some (a, rest) ↔
      s = a ++ pat ++ rest ∧ ∀ a' rest', s = a' ++ pat ++ rest' → a.length ≤ a'.length := by
  rw [List.dropInfix?_eq_some_iff]
  constructor
  · rintro ⟨⟨pat', heq, hpat⟩, hleast⟩
    obtain rfl := eq_of_beq hpat
    exact ⟨heq, fun a' rest' h => hleast a' pat' rest' h BEq.rfl⟩
  · rintro ⟨heq, hleast⟩
    refine ⟨⟨pat, heq, BEq.rfl⟩, ?_⟩
    intro a' pat' rest' h hpat
    obtain rfl := eq_of_beq hpat
    exact hleast a' rest' h

theorem dropPrefix_none_iff : s.dropPrefix? pat = none ↔ ¬ pat <+: s := by
  rw [Option.eq_none_iff_forall_not_mem]
  constructor
  · rintro h ⟨rest, rfl⟩
    exact h rest (List.dropPrefix?_eq_some_iff.2 ⟨pat, rfl, BEq.rfl⟩)
  · rintro h rest hrest
    obtain ⟨pat', rfl, hpat⟩ := List.dropPrefix?_eq_some_iff.1 hrest
    obtain rfl := eq_of_beq hpat
    exact h ⟨rest, rfl⟩

/-- Without a cut there is no occurrence. -/
theorem dropInfix_none_iff : s.dropInfix? pat = none ↔ ¬ pat <:+: s := by
  have hgo : ∀ acc, List.dropInfix?.go pat s acc = none ↔ ¬ pat <:+: s := by
    induction s with
    | nil =>
      intro acc
      cases pat <;> simp [List.dropInfix?.go]
    | cons c s ih =>
      intro acc
      rw [List.dropInfix?.go, List.infix_cons_iff]
      cases h : (c :: s).dropPrefix? pat with
      | none => simp [ih, dropPrefix_none_iff.1 h]
      | some rest =>
        have hstart : pat <+: c :: s := by
          by_contra hnot
          rw [dropPrefix_none_iff.2 hnot] at h
          cases h
        simp [hstart]
  exact hgo []

theorem dropInfix_lt (hpat : pat ≠ []) (h : s.dropInfix? pat = some (a, rest)) : rest.length < s.length := by
  have hpos := List.length_pos_iff.2 hpat
  rw [(dropInfix_some_iff.1 h).1, List.length_append, List.length_append]
  omega

theorem dropInfix_prefix (h : pat <+: s) : s.dropInfix? pat = some ([], s.drop pat.length) := by
  obtain ⟨rest, rfl⟩ := h
  rw [List.drop_left, dropInfix_some_iff]
  exact ⟨rfl, fun _ _ _ => Nat.zero_le _⟩

/-- Where no occurrence begins the search goes on behind the element. -/
theorem dropInfix_cons {c : α} (h : ¬ pat <+: c :: s) :
    (c :: s).dropInfix? pat = (s.dropInfix? pat).map fun cut => (c :: cut.1, cut.2) := by
  cases hs : s.dropInfix? pat with
  | none =>
    rw [Option.map_none, dropInfix_none_iff, List.infix_cons_iff, not_or]
    exact ⟨h, dropInfix_none_iff.1 hs⟩
  | some cut =>
    obtain ⟨heq, hleast⟩ := dropInfix_some_iff.1 hs
    rw [Option.map_some, dropInfix_some_iff]
    refine ⟨congrArg (c :: ·) heq, ?_⟩
    intro a' rest' ha
    cases a' with
    | nil => exact absurd ⟨rest', ha.symm⟩ h
    | cons d a' => exact Nat.succ_le_succ (hleast a' rest' (List.cons.inj ha).2)

/-! ## All of them -/

/-- What is between the occurrences, and at the ends. -/
def pieces (pat : List α) (hpat : pat ≠ []) (s : List α) : List (List α) :=
  match h : s.dropInfix? pat with
  | none => [s]
  | some (a, rest) =>
    have := dropInfix_lt hpat h
    a :: pieces pat hpat rest
termination_by s.length

variable {hpat : pat ≠ []}

theorem pieces_none (h : s.dropInfix? pat = none) : pieces pat hpat s = [s] := by
  unfold pieces
  split
  · rfl
  · rename_i hcut
    rw [h] at hcut
    cases hcut

theorem pieces_some (h : s.dropInfix? pat = some (a, rest)) : pieces pat hpat s = a :: pieces pat hpat rest := by
  rw [pieces]
  split
  · rename_i hcut
    rw [h] at hcut
    cases hcut
  · rename_i hcut
    rw [h] at hcut
    cases hcut
    rfl

theorem pieces_ne_nil (s : List α) : pieces pat hpat s ≠ [] := by
  unfold pieces
  split
  · exact List.cons_ne_nil _ _
  · exact List.cons_ne_nil _ _

/-- A first piece goes in front of the others joined. -/
theorem intercalate_some (sep : List α) (h : s.dropInfix? pat = some (a, rest)) :
    sep.intercalate (pieces pat hpat s) = a ++ sep ++ sep.intercalate (pieces pat hpat rest) := by
  rw [pieces_some h]
  have hne : pieces pat hpat rest ≠ [] := pieces_ne_nil rest
  obtain ⟨b, bs, hb⟩ := List.exists_cons_of_ne_nil hne
  rw [hb, List.intercalate_cons_cons]

theorem intercalate_none (sep : List α) (h : s.dropInfix? pat = none) :
    sep.intercalate (pieces pat hpat s) = s := by
  rw [pieces_none h, List.intercalate_singleton]

theorem intercalate_cons (sep : List α) {c : α} (h : ¬ pat <+: c :: s) :
    sep.intercalate (pieces pat hpat (c :: s)) = c :: sep.intercalate (pieces pat hpat s) := by
  have hcons := dropInfix_cons h
  cases hs : s.dropInfix? pat with
  | none =>
    rw [hs, Option.map_none] at hcons
    rw [intercalate_none sep hcons, intercalate_none sep hs]
  | some cut =>
    rw [hs, Option.map_some] at hcons
    rw [intercalate_some sep hcons, intercalate_some sep hs]
    rfl

/-- Joined with the pattern the pieces are the list again. -/
theorem intercalate_pieces (s : List α) : pat.intercalate (pieces pat hpat s) = s := by
  fun_induction pieces pat hpat s with
  | case1 s h => exact List.intercalate_singleton
  | case2 s a rest h _ ih =>
    have hjoin : pat.intercalate (pieces pat hpat s) = a ++ pat ++ pat.intercalate (pieces pat hpat rest) :=
      intercalate_some pat h
    rw [pieces_some h, ih] at hjoin
    rw [hjoin]
    exact (dropInfix_some_iff.1 h).1.symm

/-- A piece is cut off at the first occurrence, so it holds none. -/
theorem not_infix_first (hpat : pat ≠ []) (h : s.dropInfix? pat = some (a, rest)) : ¬ pat <:+: a := by
  rintro ⟨a', a'', rfl⟩
  obtain ⟨heq, hleast⟩ := dropInfix_some_iff.1 h
  have hle := hleast a' (a'' ++ pat ++ rest) (by rw [heq]; simp)
  have hpos := List.length_pos_iff.2 hpat
  rw [List.length_append, List.length_append] at hle
  omega

theorem not_infix_piece (s : List α) : ∀ piece ∈ pieces pat hpat s, ¬ pat <:+: piece := by
  fun_induction pieces pat hpat s with
  | case1 s h =>
    intro piece hpiece
    obtain rfl := List.mem_singleton.1 hpiece
    exact dropInfix_none_iff.1 h
  | case2 s a rest h _ ih =>
    intro piece hpiece
    rcases List.mem_cons.1 hpiece with rfl | hpiece
    · exact not_infix_first hpat h
    · exact ih piece hpiece

end RtcClient.Lib
