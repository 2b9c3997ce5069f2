import RtcClient.Common.Utils
import Mathlib.Data.List.TakeWhile
/-!
# What the string functions do

Printed decimals are read back, a search for one character replaces it everywhere,
and a search for an escape sequence undoes the escaping of its character.
-/

namespace RtcClient

open Lib

/-! ## Decimals -/

theorem common_to_string_nat (n : Nat) :
    common_to_string n = (Nat.toDigits 10 n).map (fun c => UInt8.ofNat c.toNat) := by
  have h : toString (n : Int) = n.repr := rfl
  rw [common_to_string, ascii, h, Nat.toList_repr]

/-- A digit as a byte. -/
theorem digit_byte {c : Char} {n : Nat} (h : c ∈ Nat.toDigits 10 n) :
    (UInt8.ofNat c.toNat).toNat = c.toNat ∧ 48 ≤ c.toNat ∧ c.toNat ≤ 57 := by
  have hd : c.isDigit := Nat.isDigit_of_mem_toDigits (by decide) (by decide) h
  rw [Char.isDigit_iff_toNat] at hd
  change 48 ≤ c.toNat ∧ c.toNat ≤ 57 at hd
  refine ⟨?_, hd⟩
  rw [UInt8.toNat_ofNat']
  exact Nat.mod_eq_of_lt (by omega)

theorem isdigit_iff (c : UInt8) : isdigit c = true ↔ 48 ≤ c.toNat ∧ c.toNat ≤ 57 := by
  simp [isdigit, UInt8.le_iff_toNat_le]

theorem isdigit_common_to_string (n : Nat) : ∀ c ∈ common_to_string n, isdigit c = true := by
  intro c hc
  rw [common_to_string_nat] at hc
  obtain ⟨d, hd, rfl⟩ := List.mem_map.1 hc
  obtain ⟨he, hlo, hhi⟩ := digit_byte hd
  rw [isdigit_iff, he]
  exact ⟨hlo, hhi⟩

theorem common_to_string_ne_nil (n : Nat) : common_to_string n ≠ [] := by
  rw [common_to_string_nat]
  simp

/-- A negative number is printed with a minus sign. -/
theorem common_to_string_negSucc (n : Nat) :
    common_to_string (Int.negSucc n) = 45 :: common_to_string (n + 1 : Nat) := by
  change ascii ("-" ++ (n + 1).repr) = 45 :: ascii (n + 1).repr
  rw [ascii, String.toList_append, List.map_append]
  rfl

theorem digits_value_common_to_string (n : Nat) : digits_value (common_to_string n) = n := by
  rw [common_to_string_nat, digits_value, List.foldl_map]
  refine Eq.trans ?_ (Nat.ofDigitChars_ten_toDigits (n := n))
  rw [Nat.ofDigitChars_eq_foldl]
  refine List.foldl_ext _ _ _ fun a c hc => ?_
  rw [(digit_byte hc).1]
  rfl

theorem common_to_string_inj {m n : Nat} (h : common_to_string m = common_to_string n) : m = n := by
  rw [← digits_value_common_to_string m, h, digits_value_common_to_string]

/-! A string of digits has no other characters. -/

theorem isdigit_ne {c d : UInt8} (hc : isdigit c = true) (hd : isdigit d = false) : c ≠ d := by
  rintro rfl
  rw [hc] at hd
  cases hd

theorem c_str_digits {s : Bytes} (h : ∀ c ∈ s, isdigit c = true) : c_str s = s := by
  apply List.takeWhile_eq_self_iff.2
  intro c hc
  rw [bne_iff_ne]
  exact isdigit_ne (h c hc) (by decide)

theorem isspace_digit {c : UInt8} (h : isdigit c = true) : isspace c = false := by
  have hc := (isdigit_iff c).1 h
  rw [isspace, beq_false_of_ne (isdigit_ne h (by decide)), Bool.false_or, Bool.and_eq_false_iff]
  right
  rw [decide_eq_false_iff_not, UInt8.le_iff_toNat_le]
  change ¬ c.toNat ≤ 13
  omega

theorem dropWhile_digits {s : Bytes} (h : ∀ c ∈ s, isdigit c = true) : s.dropWhile isspace = s := by
  cases s with
  | nil => rfl
  | cons c s =>
    apply List.dropWhile_cons_of_neg
    rw [isspace_digit (h c (by simp))]
    exact Bool.false_ne_true

theorem split_sign_digits {s : Bytes} (h : ∀ c ∈ s, isdigit c = true) : split_sign s = (false, s) := by
  cases s with
  | nil => rfl
  | cons c s =>
    have hc := h c (by simp)
    unfold split_sign
    split
    · rename_i heq
      exact absurd (List.cons.inj heq).1 (isdigit_ne hc (by decide))
    · rename_i heq
      exact absurd (List.cons.inj heq).1 (isdigit_ne hc (by decide))
    · rfl

/-- A number that fits a `long` is read as it was printed. -/
theorem string_to_long_common_to_string {n : Nat} (h : n < 2 ^ 63) : string_to_long (common_to_string n) = n := by
  have hd := isdigit_common_to_string n
  have ht : (common_to_string n).takeWhile isdigit = common_to_string n := List.takeWhile_eq_self_iff.2 hd
  unfold string_to_long
  rw [c_str_digits hd, dropWhile_digits hd, split_sign_digits hd]
  simp only [Bool.false_eq_true, if_false]
  rw [ht, digits_value_common_to_string]
  omega

/-! ## Replacing -/

theorem replace_loop_nil (search replacement : Bytes) : replace_loop search replacement [] = [] := by
  rw [replace_loop]

theorem replace_loop_skip {search replacement : Bytes} {c : UInt8} {rest : Bytes} (h : ¬ search <+: c :: rest) :
    replace_loop search replacement (c :: rest) = c :: replace_loop search replacement rest := by
  rw [replace_loop, if_neg (by simpa using h)]

theorem replace_loop_found {a : UInt8} {search replacement rest : Bytes} :
    replace_loop (a :: search) replacement (a :: search ++ rest) =
      replacement ++ replace_loop (a :: search) replacement rest := by
  rw [List.cons_append, replace_loop, if_pos (by simp)]
  simp

/-- A search for what is not there. -/
theorem string_replace_absent {c : UInt8} {search replacement str : Bytes} (h : c ∉ str) :
    string_replace str (c :: search) replacement = str := by
  unfold string_replace
  split
  · rfl
  split
  · rfl
  · induction str with
    | nil => exact replace_loop_nil _ _
    | cons d str ih =>
      simp only [List.mem_cons, not_or] at h
      rw [replace_loop_skip, ih h.2]
      simp [h.1]

/-! ## Escaping -/

/-- Characters that are written as a backslash and another character. -/
abbrev Escapes := List (UInt8 × UInt8)

/-- How a character is written. -/
def escape_char : Escapes → UInt8 → Bytes
  | [], d => [d]
  | (c, e) :: escapes, d => if d = c then [92, e] else escape_char escapes d

theorem escape_char_cases (escapes : Escapes) (d : UInt8) :
    (escape_char escapes d = [d] ∧ ∀ p ∈ escapes, p.1 ≠ d) ∨
      ∃ p ∈ escapes, p.1 = d ∧ escape_char escapes d = [92, p.2] := by
  induction escapes with
  | nil => exact .inl ⟨rfl, by simp⟩
  | cons p escapes ih =>
    obtain ⟨c, e⟩ := p
    unfold escape_char
    by_cases h : d = c
    · rw [if_pos h]
      exact .inr ⟨(c, e), by simp, h.symm, rfl⟩
    · rw [if_neg h]
      rcases ih with ⟨h1, h2⟩ | ⟨p, hp, h1, h2⟩
      · exact .inl ⟨h1, by simpa [Ne.symm h] using h2⟩
      · exact .inr ⟨p, by simp [hp], h1, h2⟩

theorem string_replace_loop {search replacement : Bytes} (h : search ≠ replacement) (h' : search ≠ []) (str : Bytes) :
    string_replace str search replacement = replace_loop search replacement str := by
  rw [string_replace, if_neg h, if_neg h']

/-- Writing one more character as an escape sequence. -/
theorem string_replace_escape {escapes : Escapes} {c e : UInt8} (hc : c ≠ 92)
    (hesc : ∀ p ∈ escapes, p.1 ≠ c ∧ p.2 ≠ c) (s : Bytes) :
    string_replace (s.flatMap (escape_char escapes)) [c] [92, e] = s.flatMap (escape_char ((c, e) :: escapes)) := by
  rw [string_replace_loop (by simp) (by simp)]
  induction s with
  | nil => exact replace_loop_nil _ _
  | cons d s ih =>
    rw [List.flatMap_cons, List.flatMap_cons, ← ih]
    by_cases hd : d = c
    · subst hd
      rcases escape_char_cases escapes d with ⟨h, -⟩ | ⟨p, hp, h, -⟩
      · rw [h, escape_char, if_pos rfl]
        exact replace_loop_found
      · exact absurd h (hesc p hp).1
    · rw [escape_char, if_neg hd]
      rcases escape_char_cases escapes d with ⟨h, -⟩ | ⟨p, hp, -, h⟩
      · rw [h]
        exact replace_loop_skip (by simp [Ne.symm hd])
      · rw [h]
        simp only [List.cons_append, List.nil_append]
        rw [replace_loop_skip (by simp [hc]), replace_loop_skip (by simp [Ne.symm (hesc p hp).2])]

/-- Undoing one escape sequence in a text that had no backslash. -/
theorem string_replace_unescape {escapes : Escapes} {c e : UInt8}
    (hesc : ∀ p ∈ escapes, p.1 ≠ c ∧ p.2 ≠ e ∧ p.2 ≠ 92) {s : Bytes} (hs : 92 ∉ s) :
    string_replace (s.flatMap (escape_char ((c, e) :: escapes))) [92, e] [c] = s.flatMap (escape_char escapes) := by
  rw [string_replace_loop (by simp) (by simp)]
  induction s with
  | nil => exact replace_loop_nil _ _
  | cons d s ih =>
    simp only [List.mem_cons, not_or] at hs
    rw [List.flatMap_cons, List.flatMap_cons, ← ih hs.2]
    by_cases hd : d = c
    · subst hd
      rcases escape_char_cases escapes d with ⟨h, -⟩ | ⟨p, hp, h, -⟩
      · rw [h, escape_char, if_pos rfl]
        exact replace_loop_found
      · exact absurd h (hesc p hp).1
    · rw [escape_char, if_neg hd]
      rcases escape_char_cases escapes d with ⟨h, -⟩ | ⟨p, hp, -, h⟩
      · rw [h]
        exact replace_loop_skip (by simp [hs.1])
      · rw [h]
        simp only [List.cons_append, List.nil_append]
        rw [replace_loop_skip (by simp [Ne.symm (hesc p hp).2.1]),
          replace_loop_skip (by simp [Ne.symm (hesc p hp).2.2])]

end RtcClient
