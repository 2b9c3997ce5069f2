import Mathlib.Tactic.IntervalCases
import Mathlib.Tactic.Linarith
import Mathlib.Tactic.Ring
import RtcClient.Lib.Bytes
/-!
# UTF-8

A lead byte says how many continuation bytes follow it, up to five. Such a group of bytes
has a value (`Group`); it is the UTF-8 encoding of a Unicode scalar value just when it has
no more bytes than the value needs and the value is one of a scalar (`group_encode`,
`encode_of_shortest`).
-/

namespace RtcClient.Lib.Utf8

/-- The encoding of a scalar value. -/
abbrev encode (c : Char) : Bytes := String.utf8EncodeChar c

def Continues (x : UInt8) : Prop := 0x80 ≤ x.toNat ∧ x.toNat < 0xC0

instance (x : UInt8) : Decidable (Continues x) := inferInstanceAs (Decidable (_ ∧ _))

theorem Continues.ne_zero {x : UInt8} (h : Continues x) : x ≠ 0 := by
  rintro rfl
  exact absurd h.1 (by decide)

/-- How many bytes follow a lead byte. -/
def following (b : UInt8) : Option Nat :=
  if b.toNat < 0x80 then some 0
  else if b.toNat < 0xC0 then none
  else if b.toNat < 0xE0 then some 1
  else if b.toNat < 0xF0 then some 2
  else if b.toNat < 0xF8 then some 3
  else if b.toNat < 0xFC then some 4
  else if b.toNat < 0xFE then some 5
  else none

/-- The value of continuation bytes behind a value. -/
def append_bits (v : Nat) (ts : Bytes) : Nat := ts.foldl (fun v x => v * 64 + x.toNat % 64) v

/-- The value of a group. In a group of several bytes the lead byte has `6 - n` bits of it. -/
def value (b : UInt8) (ts : Bytes) : Nat :=
  append_bits (if ts = [] then b.toNat else b.toNat % 2 ^ (6 - ts.length)) ts

/-- A lead byte and the bytes it announces. -/
structure Group (b : UInt8) (ts : Bytes) : Prop where
  following : following b = some ts.length
  continues : ∀ x ∈ ts, Continues x

/-- The least value that needs `n` bytes behind the first. -/
def least : Nat → Nat
  | 0 => 0
  | 1 => 0x80
  | n + 2 => 2 ^ (5 * n + 11)

/-- The value of a scalar, in the shortest form. -/
structure Shortest (n v : Nat) : Prop where
  least : least n ≤ v
  valid : v < 0xD800 ∨ 0xDFFF < v ∧ v < 0x110000

/-- The ranges of lead bytes. -/
theorem following_iff (b : UInt8) (n : Nat) :
    following b = some n ↔
      (n = 0 ∧ b.toNat < 0x80) ∨ (n = 1 ∧ 0xC0 ≤ b.toNat ∧ b.toNat < 0xE0) ∨
        (n = 2 ∧ 0xE0 ≤ b.toNat ∧ b.toNat < 0xF0) ∨ (n = 3 ∧ 0xF0 ≤ b.toNat ∧ b.toNat < 0xF8) ∨
        (n = 4 ∧ 0xF8 ≤ b.toNat ∧ b.toNat < 0xFC) ∨ (n = 5 ∧ 0xFC ≤ b.toNat ∧ b.toNat < 0xFE) := by
  unfold following
  split_ifs <;> simp only [Option.some.injEq, false_iff] <;> omega

/-- A lead byte's bits, from the second on, are ones for the bytes behind it and then a zero. -/
theorem lead_bit {b : UInt8} {n k : Nat} (h : following b = some n) (hn : 0 < n) (hk : k ≤ n) :
    b.toNat / 2 ^ (6 - k) % 2 = 1 ↔ k < n := by
  rw [following_iff] at h
  have hb := b.toNat_lt
  have hk5 : k ≤ 5 := by omega
  interval_cases k <;> omega

theorem append_bits_eq (v : Nat) (ts : Bytes) : append_bits v ts = v * 64 ^ ts.length + append_bits 0 ts := by
  induction ts generalizing v with
  | nil => simp [append_bits]
  | cons x ts ih =>
    change append_bits (v * 64 + x.toNat % 64) ts = _ + append_bits (0 * 64 + x.toNat % 64) ts
    rw [ih, ih (0 * 64 + _), List.length_cons, pow_succ]
    ring

theorem append_bits_lt (ts : Bytes) : append_bits 0 ts < 64 ^ ts.length := by
  induction ts with
  | nil => exact Nat.one_pos
  | cons x ts ih =>
    change append_bits (0 * 64 + x.toNat % 64) ts < _
    have hx : x.toNat % 64 < 64 := Nat.mod_lt _ (by decide)
    rw [append_bits_eq, List.length_cons, pow_succ]
    nlinarith

theorem append_bits_concat (v : Nat) (ts : Bytes) (x : UInt8) :
    append_bits v (ts ++ [x]) = append_bits v ts * 64 + x.toNat % 64 := by
  rw [append_bits, List.foldl_append]
  rfl

theorem value_one (b : UInt8) : value b [] = b.toNat := rfl

theorem value_two (b x : UInt8) : value b [x] = b.toNat % 32 * 64 + x.toNat % 64 := rfl

theorem value_three (b x y : UInt8) :
    value b [x, y] = (b.toNat % 16 * 64 + x.toNat % 64) * 64 + y.toNat % 64 := rfl

theorem value_four (b x y z : UInt8) :
    value b [x, y, z] = ((b.toNat % 8 * 64 + x.toNat % 64) * 64 + y.toNat % 64) * 64 + z.toNat % 64 := rfl

theorem toNat_valid (c : Char) : c.toNat < 0xD800 ∨ 0xDFFF < c.toNat ∧ c.toNat < 0x110000 := c.valid

theorem continues_ofNat (v : Nat) : Continues (UInt8.ofNat (v % 0x40 + 0x80)) := by
  unfold Continues
  rw [UInt8.toNat_ofNat']
  omega

theorem encode_eq (c : Char) :
    encode c =
      if c.toNat ≤ 0x7f then [UInt8.ofNat c.toNat]
      else if c.toNat ≤ 0x7ff then
        [UInt8.ofNat (c.toNat / 64 % 0x20 + 0xc0), UInt8.ofNat (c.toNat % 0x40 + 0x80)]
      else if c.toNat ≤ 0xffff then
        [UInt8.ofNat (c.toNat / 4096 % 0x10 + 0xe0), UInt8.ofNat (c.toNat / 64 % 0x40 + 0x80),
          UInt8.ofNat (c.toNat % 0x40 + 0x80)]
      else
        [UInt8.ofNat (c.toNat / 262144 % 0x08 + 0xf0), UInt8.ofNat (c.toNat / 4096 % 0x40 + 0x80),
          UInt8.ofNat (c.toNat / 64 % 0x40 + 0x80), UInt8.ofNat (c.toNat % 0x40 + 0x80)] := rfl

/-- A scalar's encoding is a group of that value. -/
theorem group_encode (c : Char) :
    ∃ b ts, encode c = b :: ts ∧ Group b ts ∧ value b ts = c.toNat ∧ Shortest ts.length c.toNat := by
  have hvalid := toNat_valid c
  rw [encode_eq]
  generalize c.toNat = v at hvalid ⊢
  split_ifs with h1 h2 h3
  · refine ⟨_, [], rfl, ⟨?_, by simp⟩, ?_, ⟨Nat.zero_le _, hvalid⟩⟩
    · rw [following_iff, UInt8.toNat_ofNat', List.length_nil]
      omega
    · rw [value_one, UInt8.toNat_ofNat']
      omega
  · refine ⟨_, [_], rfl, ⟨?_, ?_⟩, ?_, ⟨Nat.lt_of_not_le h1, hvalid⟩⟩
    · rw [following_iff, UInt8.toNat_ofNat', List.length_singleton]
      omega
    · simp only [List.mem_singleton, forall_eq]
      exact continues_ofNat v
    · rw [value_two, UInt8.toNat_ofNat', UInt8.toNat_ofNat']
      omega
  · refine ⟨_, [_, _], rfl, ⟨?_, ?_⟩, ?_, ⟨Nat.lt_of_not_le h2, hvalid⟩⟩
    · rw [following_iff, UInt8.toNat_ofNat']
      simp only [List.length_cons, List.length_nil, true_and]
      omega
    · simp only [List.mem_cons, List.not_mem_nil, or_false, forall_eq_or_imp, forall_eq]
      exact ⟨continues_ofNat _, continues_ofNat _⟩
    · rw [value_three, UInt8.toNat_ofNat', UInt8.toNat_ofNat', UInt8.toNat_ofNat']
      omega
  · refine ⟨_, [_, _, _], rfl, ⟨?_, ?_⟩, ?_, ⟨?_, hvalid⟩⟩
    · rw [following_iff, UInt8.toNat_ofNat']
      simp only [List.length_cons, List.length_nil, true_and]
      omega
    · simp only [List.mem_cons, List.not_mem_nil, or_false, forall_eq_or_imp, forall_eq]
      exact ⟨continues_ofNat _, continues_ofNat _, continues_ofNat _⟩
    · rw [value_four, UInt8.toNat_ofNat', UInt8.toNat_ofNat', UInt8.toNat_ofNat', UInt8.toNat_ofNat']
      omega
    · simp only [List.length_cons, List.length_nil, least]
      omega

theorem exists_char {v : Nat} (h : v < 0xD800 ∨ 0xDFFF < v ∧ v < 0x110000) : ∃ c : Char, c.toNat = v :=
  ⟨Char.ofNatAux v h, rfl⟩

theorem ofNat_eq {v : Nat} {b : UInt8} (h : v = b.toNat) : UInt8.ofNat v = b := by rw [h, UInt8.ofNat_toNat]

theorem least_large (n : Nat) : 0x110000 ≤ least (n + 4) := by
  have hpow : 2 ^ 21 ≤ 2 ^ (5 * (n + 2) + 11) := Nat.pow_le_pow_right (by decide) (by omega)
  exact Nat.le_trans (by decide) hpow

/-- A group in the shortest form is a scalar's encoding. -/
theorem encode_of_shortest {b : UInt8} {ts : Bytes} (h : Group b ts) (hv : Shortest ts.length (value b ts)) :
    ∃ c : Char, c.toNat = value b ts ∧ encode c = b :: ts := by
  obtain ⟨c, hc⟩ := exists_char hv.valid
  refine ⟨c, hc, ?_⟩
  have hlead := (following_iff b _).1 h.following
  have hcontinues := h.continues
  have hleast := hv.least
  rw [encode_eq, hc]
  rcases ts with - | ⟨x, - | ⟨y, - | ⟨z, - | ⟨w, rest⟩⟩⟩⟩
  · rw [List.length_nil] at hlead
    rw [value_one, if_pos (by omega), UInt8.ofNat_toNat]
  · rw [List.length_singleton] at hlead
    have hx := hcontinues x (by simp)
    unfold Continues at hx
    rw [value_two] at hleast ⊢
    rw [List.length_singleton, least] at hleast
    rw [if_neg (by omega), if_pos (by omega), ofNat_eq (b := b) (by omega), ofNat_eq (b := x) (by omega)]
  · simp only [List.length_cons, List.length_nil] at hlead
    have hx := hcontinues x (by simp)
    have hy := hcontinues y (by simp)
    unfold Continues at hx hy
    rw [value_three] at hleast ⊢
    simp only [List.length_cons, List.length_nil, least] at hleast
    rw [if_neg (by omega), if_neg (by omega), if_pos (by omega), ofNat_eq (b := b) (by omega),
      ofNat_eq (b := x) (by omega), ofNat_eq (b := y) (by omega)]
  · simp only [List.length_cons, List.length_nil] at hlead
    have hx := hcontinues x (by simp)
    have hy := hcontinues y (by simp)
    have hz := hcontinues z (by simp)
    unfold Continues at hx hy hz
    rw [value_four] at hleast ⊢
    simp only [List.length_cons, List.length_nil, least] at hleast
    rw [if_neg (by omega), if_neg (by omega), if_neg (by omega), ofNat_eq (b := b) (by omega),
      ofNat_eq (b := x) (by omega), ofNat_eq (b := y) (by omega), ofNat_eq (b := z) (by omega)]
  · have hlarge : 0x110000 ≤ least (x :: y :: z :: w :: rest).length := least_large rest.length
    have hvalid := hv.valid
    omega

/-- The scalars' encodings among the groups. -/
theorem exists_encode_iff (P : Nat → Prop) (b : UInt8) (ts : Bytes) :
    (∃ c : Char, P c.toNat ∧ encode c = b :: ts) ↔
      Group b ts ∧ Shortest ts.length (value b ts) ∧ P (value b ts) := by
  constructor
  · rintro ⟨c, hp, hc⟩
    obtain ⟨b', ts', heq, hgroup, hvalue, hshortest⟩ := group_encode c
    obtain ⟨rfl, rfl⟩ := List.cons.inj (heq.symm.trans hc)
    rw [hvalue]
    exact ⟨hgroup, hshortest, hp⟩
  · rintro ⟨hgroup, hshortest, hp⟩
    obtain ⟨c, hvalue, hc⟩ := encode_of_shortest hgroup hshortest
    exact ⟨c, hvalue ▸ hp, hc⟩

end RtcClient.Lib.Utf8
