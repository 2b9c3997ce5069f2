import Mathlib.Data.Nat.Log
import Mathlib.Tactic.Ring
import RtcClient.Lib.Bytes
/-!
# Bit strings

Numbers in a fixed number of bits, most significant first, the exponential Golomb codes,
and bit strings packed into bytes.
-/

namespace RtcClient.Lib

abbrev Bits := List Bool

/-! ## Numbers in a fixed number of bits -/

/-- The last `n` bits of `k`. -/
def fixed : Nat → Nat → Bits
  | 0, _ => []
  | n + 1, k => decide (k / 2 ^ n % 2 = 1) :: fixed n k

/-- A bit behind the bits of a number. -/
def append_bit (v : Nat) (b : Bool) : Nat := v * 2 + b.toNat

/-- The number with these bits. -/
def number (l : Bits) : Nat := l.foldl append_bit 0

@[simp] theorem fixed_length (n k : Nat) : (fixed n k).length = n := by
  induction n with
  | zero => rfl
  | succ n ih => rw [fixed, List.length_cons, ih]

theorem foldl_append_bit (l : Bits) (v : Nat) : l.foldl append_bit v = v * 2 ^ l.length + number l := by
  induction l generalizing v with
  | nil => simp [number]
  | cons b l ih =>
    rw [number, List.foldl_cons, List.foldl_cons, ih, ih (append_bit 0 b), List.length_cons, append_bit, append_bit,
      pow_succ]
    ring

theorem number_cons (b : Bool) (l : Bits) : number (b :: l) = b.toNat * 2 ^ l.length + number l := by
  rw [number, List.foldl_cons, foldl_append_bit, append_bit, Nat.zero_mul, Nat.zero_add]

theorem number_lt (l : Bits) : number l < 2 ^ l.length := by
  induction l with
  | nil => exact Nat.one_pos
  | cons b l ih =>
    rw [number_cons, List.length_cons, pow_succ]
    cases b <;> simp only [Bool.toNat_false, Bool.toNat_true] <;> omega

theorem fixed_add (n k c : Nat) : fixed n (c * 2 ^ n + k) = fixed n k := by
  induction n generalizing c with
  | zero => rfl
  | succ n ih =>
    have hsplit : c * 2 ^ (n + 1) + k = c * 2 * 2 ^ n + k := by
      rw [pow_succ, Nat.mul_comm (2 ^ n), Nat.mul_assoc]
    rw [fixed, fixed, hsplit, ih, Nat.mul_comm _ (2 ^ n), Nat.mul_add_div (Nat.two_pow_pos n), Nat.mul_comm c,
      Nat.mul_add_mod]

/-- Every bit string is that of its number. -/
theorem fixed_number (l : Bits) : fixed l.length (number l) = l := by
  induction l with
  | nil => rfl
  | cons b l ih =>
    have hlt := number_lt l
    rw [List.length_cons, fixed, number_cons, fixed_add, ih, Nat.mul_comm, Nat.mul_add_div (Nat.two_pow_pos _),
      Nat.div_eq_of_lt hlt]
    cases b <;> rfl

theorem number_fixed (n k : Nat) : number (fixed n k) = k % 2 ^ n := by
  induction n with
  | zero => exact (Nat.mod_one k).symm
  | succ n ih =>
    have hbit : (decide (k / 2 ^ n % 2 = 1)).toNat = k / 2 ^ n % 2 := by
      rcases Nat.mod_two_eq_zero_or_one (k / 2 ^ n) with h | h <;> rw [h] <;> rfl
    rw [fixed, number_cons, ih, fixed_length, hbit, Nat.mod_pow_succ]
    ring

/-! ## Exponential Golomb codes -/

/-- `n` zeros, a one and `n` bits, where `n` is the logarithm of `k + 1`. -/
def ue (k : Nat) : Bits :=
  let n := Nat.log 2 (k + 1)
  List.replicate n false ++ true :: fixed n (k + 1 - 2 ^ n)

/-- The number whose code stands for an integer: 0, 1, -1, 2, -2, and so on. -/
def code_num (v : Int) : Nat := if 0 < v then (2 * v - 1).toNat else (-2 * v).toNat

def se (v : Int) : Bits := ue (code_num v)

theorem ue_length (k : Nat) : (ue k).length = 2 * Nat.log 2 (k + 1) + 1 := by
  rw [ue, List.length_append, List.length_replicate, List.length_cons, fixed_length]
  omega

theorem ue_length_le {k : Nat} (h : k < 2 ^ 32 - 1) : (ue k).length ≤ 63 := by
  have hlog : Nat.log 2 (k + 1) < 32 := Nat.log_lt_of_lt_pow (Nat.succ_ne_zero k) (by omega)
  rw [ue_length]
  omega

theorem ue_eq (l : Bits) : ue (2 ^ l.length - 1 + number l) = List.replicate l.length false ++ true :: l := by
  have hlt := number_lt l
  have hpos := Nat.two_pow_pos l.length
  have hsucc : 2 ^ l.length - 1 + number l + 1 = 2 ^ l.length + number l := by omega
  have hlog : Nat.log 2 (2 ^ l.length + number l) = l.length :=
    Nat.log_eq_of_pow_le_of_lt_pow (Nat.le_add_right _ _) (by rw [pow_succ]; omega)
  rw [ue, hsucc, hlog, Nat.add_sub_cancel_left, fixed_number]

/-- The bits behind the one. -/
theorem exists_ue (k : Nat) : ∃ l : Bits, k = 2 ^ l.length - 1 + number l := by
  have hle : 2 ^ Nat.log 2 (k + 1) ≤ k + 1 := Nat.pow_log_le_self 2 (Nat.succ_ne_zero k)
  have hlt := Nat.lt_pow_succ_log_self (b := 2) (by decide) (k + 1)
  rw [pow_succ] at hlt
  refine ⟨fixed (Nat.log 2 (k + 1)) (k + 1 - 2 ^ Nat.log 2 (k + 1)), ?_⟩
  rw [fixed_length, number_fixed, Nat.mod_eq_of_lt (by omega)]
  omega

/-! ## Bytes -/

/-- The bit at position `i`, the most significant of a byte first. -/
def bit (buf : Bytes) (i : Nat) : Option Bool := buf[i / 8]?.map fun x => x.toNat.testBit (7 - i % 8)

theorem bit_prefix {w w' : Bytes} (h : w <+: w') {i : Nat} (hi : i < w.length * 8) : bit w' i = bit w i := by
  obtain ⟨t, rfl⟩ := h
  rw [bit, bit, List.getElem?_append_left (by omega)]

/-- Bytes with these bits, eight each. -/
def pack : Bits → Bytes
  | b0 :: b1 :: b2 :: b3 :: b4 :: b5 :: b6 :: b7 :: l =>
    UInt8.ofNat (number [b0, b1, b2, b3, b4, b5, b6, b7]) :: pack l
  | _ => []

theorem bit_cons_of_lt (x : UInt8) (rest : Bytes) {i : Nat} (h : i < 8) :
    bit (x :: rest) i = some (x.toNat.testBit (7 - i)) := by
  rw [bit, Nat.div_eq_of_lt h, Nat.mod_eq_of_lt h]
  rfl

theorem bit_cons_add (x : UInt8) (rest : Bytes) (i : Nat) : bit (x :: rest) (i + 8) = bit rest i := by
  rw [bit, Nat.add_div_right i (by decide), Nat.add_mod_right, List.getElem?_cons_succ]
  rfl

/-- Fewer than eight bits fill no byte. -/
theorem eq_nil_of_dvd {l : Bits} (h : 8 ∣ l.length)
    (hshort : ∀ b0 b1 b2 b3 b4 b5 b6 b7 rest, l = b0 :: b1 :: b2 :: b3 :: b4 :: b5 :: b6 :: b7 :: rest → False) :
    l = [] := by
  match l with
  | [] => rfl
  | [_] | [_, _] | [_, _, _] | [_, _, _, _] | [_, _, _, _, _] | [_, _, _, _, _, _] | [_, _, _, _, _, _, _] =>
    simp only [List.length_cons, List.length_nil] at h
    omega
  | b0 :: b1 :: b2 :: b3 :: b4 :: b5 :: b6 :: b7 :: rest => cases hshort b0 b1 b2 b3 b4 b5 b6 b7 rest rfl

theorem pack_length {l : Bits} (h : 8 ∣ l.length) : (pack l).length * 8 = l.length := by
  fun_induction pack l with
  | case1 b0 b1 b2 b3 b4 b5 b6 b7 l ih =>
    have hrest := ih ((Nat.dvd_add_left (Nat.dvd_refl 8)).1 h)
    simp only [List.length_cons]
    omega
  | case2 l hshort =>
    obtain rfl := eq_nil_of_dvd h hshort
    rfl

theorem testBit_number (b0 b1 b2 b3 b4 b5 b6 b7 : Bool) (i : Nat) (h : i < 8) :
    some ((UInt8.ofNat (number [b0, b1, b2, b3, b4, b5, b6, b7])).toNat.testBit (7 - i)) =
      [b0, b1, b2, b3, b4, b5, b6, b7][i]? := by
  revert b0 b1 b2 b3 b4 b5 b6 b7 i
  decide +kernel

theorem bit_pack {l : Bits} (h : 8 ∣ l.length) (i : Nat) : bit (pack l) i = l[i]? := by
  fun_induction pack l generalizing i with
  | case1 b0 b1 b2 b3 b4 b5 b6 b7 l ih =>
    rcases Nat.lt_or_ge i 8 with hlt | hge
    · rw [bit_cons_of_lt _ _ hlt, testBit_number _ _ _ _ _ _ _ _ i hlt]
      have hfirst : ([b0, b1, b2, b3, b4, b5, b6, b7] ++ l)[i]? = _ := List.getElem?_append_left hlt
      exact hfirst.symm
    · obtain ⟨j, rfl⟩ := Nat.exists_eq_add_of_le' hge
      rw [bit_cons_add, ih ((Nat.dvd_add_left (Nat.dvd_refl 8)).1 h)]
      rfl
  | case2 l hshort =>
    obtain rfl := eq_nil_of_dvd h hshort
    rfl

end RtcClient.Lib
