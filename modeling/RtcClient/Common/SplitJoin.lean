import RtcClient.Common.Utils
import RtcClient.Lib.Pieces
/-!
# Splitting and replacing

`string_split` collects what is between the occurrences of a separator, by positions.
`string_replace` edits the string in place and goes on behind the text it has put in
(`replace_at`). Both see the same occurrences: replacing is splitting and joining with the
replacement (`replace_is_split_join`).
-/

namespace RtcClient

open Lib

/-- `str.find(s, pos)` inside the string; `none` is `npos`. -/
def str_find (str s : Bytes) (pos : Nat) : Option Nat :=
  ((str.drop pos).dropInfix? s).map fun cut => pos + cut.1.length

theorem str_find_none {str s : Bytes} {pos : Nat} (h : str_find str s pos = none) :
    (str.drop pos).dropInfix? s = none := Option.map_eq_none_iff.1 h

/-- What is between `pos` and the position found, and what is behind the occurrence. -/
theorem str_find_some {str s : Bytes} {pos p : Nat} (h : str_find str s pos = some p) :
    pos ≤ p ∧ (str.drop pos).dropInfix? s = some ((str.drop pos).take (p - pos), str.drop (p + s.length)) := by
  obtain ⟨⟨a, rest⟩, hcut, rfl⟩ := Option.map_eq_some_iff.1 h
  have heq := (dropInfix_some_iff.1 hcut).1
  have htake : (str.drop pos).take (pos + a.length - pos) = a := by
    rw [heq, Nat.add_sub_cancel_left, List.append_assoc, List.take_left]
  have hdrop : str.drop (pos + a.length + s.length) = rest := by
    rw [Nat.add_assoc, ← List.drop_drop, heq, ← List.length_append, List.drop_left]
  rw [htake, hdrop]
  exact ⟨Nat.le_add_right _ _, hcut⟩

theorem str_find_inside {str s : Bytes} (hs : s ≠ []) {pos p : Nat} (h : str_find str s pos = some p) :
    p + s.length ≤ str.length := by
  obtain ⟨hle, hcut⟩ := str_find_some h
  have hpos := List.length_pos_iff.2 hs
  have hlength := congrArg List.length (dropInfix_some_iff.1 hcut).1
  simp only [List.length_append, List.length_take, List.length_drop] at hlength
  omega

/-- A search goes on closer to the end. -/
theorem str_find_lt {str s : Bytes} (hs : s ≠ []) {pos p : Nat} (h : str_find str s pos = some p) :
    str.length - (p + s.length) < str.length - pos := by
  have hle := (str_find_some h).1
  have hinside := str_find_inside hs h
  have hpos := List.length_pos_iff.2 hs
  omega

/-! ## The functions -/

/-- The loop of `string_split`. -/
def string_split_loop (str seperator : Bytes) (h : seperator ≠ []) (pos_begin : Nat) : List Bytes :=
  match hfind : str_find str seperator pos_begin with
  | none => [str.drop pos_begin]
  | some pos_seperator =>
    have := str_find_lt h hfind
    (str.drop pos_begin).take (pos_seperator - pos_begin) ::
      string_split_loop str seperator h (pos_seperator + seperator.length)
termination_by str.length - pos_begin

def string_split (str seperator : Bytes) : List Bytes :=
  if h : seperator = [] then [str] else string_split_loop str seperator h 0

/-- The loop of `string_replace`, on the whole string. What is behind the replacement gets
shorter, however long the replacement is. -/
def replace_at (search replacement : Bytes) (h : search ≠ []) (str : Bytes) (lastPos : Nat) : Bytes :=
  match hfind : str_find str search lastPos with
  | none => str
  | some pos =>
    have := str_find_lt h hfind
    replace_at search replacement h (str.take pos ++ replacement ++ str.drop (pos + search.length))
      (pos + replacement.length)
termination_by str.length - lastPos
decreasing_by
  simp only [List.length_append, List.length_take, List.length_drop]
  omega

/-- `string_replace` as it edits the string. -/
def replace_in_place (str search replacement : Bytes) : Bytes :=
  if search = replacement then str else if h : search = [] then str else replace_at search replacement h str 0

/-! ## Both go by pieces -/

theorem string_split_loop_eq (str seperator : Bytes) (h : seperator ≠ []) (pos_begin : Nat) :
    string_split_loop str seperator h pos_begin = pieces seperator h (str.drop pos_begin) := by
  fun_induction string_split_loop str seperator h pos_begin with
  | case1 pos_begin hfind => exact (pieces_none (str_find_none hfind)).symm
  | case2 pos_begin pos_seperator hfind _ ih => rw [pieces_some (str_find_some hfind).2, ih]

theorem string_split_eq {seperator : Bytes} (h : seperator ≠ []) (str : Bytes) :
    string_split str seperator = pieces seperator h str := by
  rw [string_split, dif_neg h, string_split_loop_eq, List.drop_zero]

/-- The text up to `lastPos` stays. -/
theorem replace_at_eq (search replacement : Bytes) (h : search ≠ []) (str : Bytes) (lastPos : Nat)
    (hlast : lastPos ≤ str.length) :
    replace_at search replacement h str lastPos =
      str.take lastPos ++ replacement.intercalate (pieces search h (str.drop lastPos)) := by
  fun_induction replace_at search replacement h str lastPos with
  | case1 str lastPos hfind => rw [intercalate_none replacement (str_find_none hfind), List.take_append_drop]
  | case2 str lastPos pos hfind _ ih =>
    obtain ⟨hle, hcut⟩ := str_find_some hfind
    have hinside := str_find_inside h hfind
    have hkept : (str.take pos ++ replacement).length = pos + replacement.length := by
      rw [List.length_append, List.length_take, Nat.min_eq_left (by omega)]
    have hsplit : str.take lastPos ++ (str.drop lastPos).take (pos - lastPos) = str.take pos := by
      rw [← List.take_add, Nat.add_sub_cancel' hle]
    have hbound : pos + replacement.length ≤
        (str.take pos ++ replacement ++ str.drop (pos + search.length)).length := by
      rw [List.length_append, hkept]
      exact Nat.le_add_right _ _
    rw [ih hbound, intercalate_some replacement hcut, ← hkept, List.take_left, List.drop_left, ← List.append_assoc,
      ← List.append_assoc, hsplit]

/-- The loop on what is left of the text. -/
theorem replace_loop_eq (search replacement : Bytes) (h : search ≠ []) (str : Bytes) :
    replace_loop search replacement str = replacement.intercalate (pieces search h str) := by
  fun_induction replace_loop search replacement str with
  | case1 =>
    have hnone : ([] : Bytes).dropInfix? search = none := by
      rw [dropInfix_none_iff]
      exact fun hinfix => h (List.infix_nil.1 hinfix)
    exact (intercalate_none replacement hnone).symm
  | case2 c rest hstart ih =>
    have hcut := dropInfix_prefix (List.isPrefixOf_iff_prefix.1 hstart)
    rw [← Nat.sub_add_cancel (List.length_pos_iff.2 h), List.drop_succ_cons] at hcut
    rw [intercalate_some replacement hcut, ih]
    rfl
  | case3 c rest hstart ih =>
    have hnot : ¬ search <+: c :: rest := fun hsearch => hstart (List.isPrefixOf_iff_prefix.2 hsearch)
    rw [intercalate_cons replacement hnot, ih]

/-- The string edited in place is what the loop over the rest of the text gives. -/
theorem replace_in_place_eq (str search replacement : Bytes) :
    replace_in_place str search replacement = string_replace str search replacement := by
  unfold replace_in_place string_replace
  by_cases hsame : search = replacement
  · rw [if_pos hsame, if_pos hsame]
  by_cases h : search = []
  · rw [if_neg hsame, if_neg hsame, dif_pos h, if_pos h]
  · rw [if_neg hsame, if_neg hsame, dif_neg h, if_neg h, replace_at_eq search replacement h str 0 (Nat.zero_le _),
      replace_loop_eq search replacement h]
    rfl

/-- Replacing is splitting and joining with the replacement. -/
theorem string_replace_eq (s search replacement : Bytes) :
    string_replace s search replacement = replacement.intercalate (string_split s search) := by
  unfold string_replace
  by_cases h : search = []
  · rw [if_pos h, ite_self, string_split, dif_pos h, List.intercalate_singleton]
  · rw [string_split_eq h]
    by_cases hsame : search = replacement
    · rw [if_pos hsame, ← hsame, intercalate_pieces]
    · rw [if_neg hsame, if_neg h, replace_loop_eq search replacement h]

/-- Replacing, whether in place or over the rest of the text, is splitting and joining, and
joining with the separator undoes splitting. -/
theorem replace_is_split_join (s search replacement : Bytes) :
    replace_in_place s search replacement = replacement.intercalate (string_split s search) ∧
      string_replace s search replacement = replacement.intercalate (string_split s search) ∧
      (search ≠ [] → search.intercalate (string_split s search) = s ∧
        ∀ piece ∈ string_split s search, ¬ search <:+: piece) := by
  refine ⟨?_, string_replace_eq s search replacement, fun h => ?_⟩
  · rw [replace_in_place_eq, string_replace_eq]
  · rw [string_split_eq h]
    exact ⟨intercalate_pieces s, not_infix_piece s⟩

end RtcClient
