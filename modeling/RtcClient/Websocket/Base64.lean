import RtcClient.Lib.Bytes
/-!
# Base64

The encoder keeps the bits that do not fill a character yet in the place of the next
one. What it makes is read back (`decode_encode`).
-/

namespace RtcClient

open Lib

def mg_b64idx (c : UInt8) : UInt8 :=
  if c < 26 then c + 65
  else if c < 52 then c - 26 + 97
  else if c < 62 then c - 52 + 48
  else if c = 62 then 43
  else 47

/-- `none` is -1. -/
def mg_b64rev (c : UInt8) : Option UInt8 :=
  if 65 ≤ c ∧ c ≤ 90 then some (c - 65)
  else if 97 ≤ c ∧ c ≤ 122 then some (c + 26 - 97)
  else if 48 ≤ c ∧ c ≤ 57 then some (c + 52 - 48)
  else if c = 43 then some 62
  else if c = 47 then some 63
  else if c = 61 then some 64
  else none

/-- What has been written and the position behind it. The bits left over are at the position. -/
def mg_base64_update (ch : UInt8) (out : Bytes) (n : Nat) : Bytes × Nat :=
  let rem := n % 4 % 3
  if rem = 0 then (out.take n ++ [mg_b64idx (ch >>> 2), (ch &&& 3) <<< 4], n + 1)
  else if rem = 1 then (out.take n ++ [mg_b64idx (out.getD n 0 ||| ch >>> 4), (ch &&& 15) <<< 2], n + 1)
  else (out.take n ++ [mg_b64idx (out.getD n 0 ||| ch >>> 6), mg_b64idx (ch &&& 63)], n + 2)

def mg_base64_final (out : Bytes) (n : Nat) : Bytes :=
  let r := if n % 4 ≠ 0 then mg_base64_update 0 out n else (out, n)
  let stop := if n % 4 = 2 then r.2 - 1 else r.2
  r.1.take stop ++ List.replicate ((4 - stop % 4) % 4) 61

/-- The loop of `mg_base64_encode`. -/
def base64_updates (out : Bytes) (n : Nat) : Bytes → Bytes × Nat
  | [] => (out, n)
  | ch :: p => base64_updates (mg_base64_update ch out n).1 (mg_base64_update ch out n).2 p

def mg_base64_encode (p : Bytes) : Bytes :=
  let r := base64_updates [] 0 p
  mg_base64_final r.1 r.2

/-- The loop of `mg_base64_decode`. A character that is none of Base64 makes the length 0. -/
def base64_decode_from (dst : Bytes) : Bytes → Bytes
  | a :: b :: c :: d :: src =>
    match mg_b64rev a, mg_b64rev b, mg_b64rev c, mg_b64rev d with
    | some x, some y, some z, some w =>
      if x = 64 ∨ y = 64 then []
      else
        let dst := dst ++ [x <<< 2 ||| y >>> 4]
        let dst :=
          if c ≠ 61 then
            let dst := dst ++ [y <<< 4 ||| z >>> 2]
            if d ≠ 61 then dst ++ [z <<< 6 ||| w] else dst
          else dst
        base64_decode_from dst src
    | _, _, _, _ => []
  | _ => dst

def mg_base64_decode (src : Bytes) : Bytes := base64_decode_from [] src

/-! ## Three bytes in four characters -/

/-- The bits of three bytes, six in a character. -/
def sextets (a b c : UInt8) : Bytes :=
  [mg_b64idx (a >>> 2), mg_b64idx ((a &&& 3) <<< 4 ||| b >>> 4), mg_b64idx ((b &&& 15) <<< 2 ||| c >>> 6),
    mg_b64idx (c &&& 63)]

/-- The text of some bytes. What is missing of the last three is filled up. -/
def base64 : Bytes → Bytes
  | a :: b :: c :: p => sextets a b c ++ base64 p
  | [a, b] => (sextets a b 0).take 3 ++ [61]
  | [a] => (sextets a 0 0).take 2 ++ [61, 61]
  | [] => []

section
variable (pre : Bytes) (left : UInt8)

theorem update_first (junk : Bytes) (h : pre.length % 4 = 0) (ch : UInt8) :
    mg_base64_update ch (pre ++ junk) pre.length =
      (pre ++ [mg_b64idx (ch >>> 2)] ++ [(ch &&& 3) <<< 4], (pre ++ [mg_b64idx (ch >>> 2)]).length) := by
  simp [mg_base64_update, h]

theorem update_second (h : pre.length % 4 = 1) (ch : UInt8) :
    mg_base64_update ch (pre ++ [left]) pre.length =
      (pre ++ [mg_b64idx (left ||| ch >>> 4)] ++ [(ch &&& 15) <<< 2],
        (pre ++ [mg_b64idx (left ||| ch >>> 4)]).length) := by
  simp [mg_base64_update, h]

theorem update_third (h : pre.length % 4 = 2) (ch : UInt8) :
    mg_base64_update ch (pre ++ [left]) pre.length =
      (pre ++ [mg_b64idx (left ||| ch >>> 6), mg_b64idx (ch &&& 63)], pre.length + 2) := by
  simp [mg_base64_update, h]

end

theorem base64_updates_final (p : Bytes) :
    ∀ pre : Bytes, pre.length % 4 = 0 →
      mg_base64_final (base64_updates pre pre.length p).1 (base64_updates pre pre.length p).2 = pre ++ base64 p := by
  fun_induction base64 p with
  | case1 a b c p ih =>
    intro pre hpre
    have hfour : (pre ++ sextets a b c).length % 4 = 0 := by
      rw [List.length_append]
      simp only [sextets, List.length_cons, List.length_nil]
      omega
    have hfirst := update_first pre [] hpre a
    rw [List.append_nil] at hfirst
    have hrest := ih (pre ++ sextets a b c) hfour
    rw [base64_updates, hfirst, base64_updates, update_second _ _ (by simp; omega), base64_updates,
      update_third _ _ (by simp; omega)]
    simpa [sextets] using hrest
  | case2 a b =>
    intro pre hpre
    have hfirst := update_first pre [] hpre a
    rw [List.append_nil] at hfirst
    rw [base64_updates, hfirst, base64_updates, update_second _ _ (by simp; omega), base64_updates, mg_base64_final,
      update_third _ _ (by simp; omega)]
    have hsaved : (pre.length + 2) % 4 = 2 := by omega
    have hstop : (pre.length + 3) % 4 = 3 := by omega
    simp [sextets, hsaved, hstop, List.take_append, List.take_of_length_le]
  | case3 a =>
    intro pre hpre
    have hfirst := update_first pre [] hpre a
    rw [List.append_nil] at hfirst
    rw [base64_updates, hfirst, base64_updates, mg_base64_final, update_second _ _ (by simp; omega)]
    have hsaved : (pre.length + 1) % 4 = 1 := by omega
    have hstop : (pre.length + 2) % 4 = 2 := by omega
    simp [sextets, hsaved, hstop, List.take_append, List.take_of_length_le]
  | case4 =>
    intro pre hpre
    simp [base64_updates, mg_base64_final, hpre]

/-! ## Reading it back -/

/-- What holds for 256 numbers holds for every byte. -/
theorem of_byte_values {P : UInt8 → Prop} (h : ∀ n < 256, P (UInt8.ofNat n)) (b : UInt8) : P b := by
  have hb := h b.toNat b.toNat_lt
  rwa [UInt8.ofNat_toNat] at hb

/-- A number of six bits. -/
theorem b64rev_idx (c : UInt8) : c < 64 → mg_b64rev (mg_b64idx c) = some c ∧ mg_b64idx c ≠ 61 ∧ c ≠ 64 :=
  of_byte_values (P := fun c => c < 64 → mg_b64rev (mg_b64idx c) = some c ∧ mg_b64idx c ≠ 61 ∧ c ≠ 64)
    (by decide +kernel) c

theorem first_bits (a : UInt8) : a >>> 2 < 64 ∧ (a &&& 3) <<< 4 < 64 ∧ a >>> 4 < 64 ∧ (a &&& 15) <<< 2 < 64 ∧
    a >>> 6 < 64 ∧ a &&& 63 < 64 :=
  of_byte_values (P := fun a => a >>> 2 < 64 ∧ (a &&& 3) <<< 4 < 64 ∧ a >>> 4 < 64 ∧ (a &&& 15) <<< 2 < 64 ∧
    a >>> 6 < 64 ∧ a &&& 63 < 64) (by decide +kernel) a

/-- Two parts of six bits make six bits. -/
theorem or_lt {x y : UInt8} (hx : x < 64) (hy : y < 64) : x ||| y < 64 := by
  rw [UInt8.lt_iff_toNat_lt] at hx hy ⊢
  rw [UInt8.toNat_or]
  exact Nat.or_lt_two_pow (n := 6) hx hy

/-- A byte is put together of its two parts. -/
theorem parts_of_byte (a : UInt8) :
    (a >>> 2) <<< 2 ||| ((a &&& 3) <<< 4) >>> 4 = a ∧ (a >>> 4) <<< 4 ||| ((a &&& 15) <<< 2) >>> 2 = a ∧
      (a >>> 6) <<< 6 ||| (a &&& 63) = a ∧ (a >>> 4) >>> 4 = 0 ∧ ((a &&& 3) <<< 4) <<< 4 = 0 ∧
      (a >>> 6) >>> 2 = 0 ∧ ((a &&& 15) <<< 2) <<< 6 = 0 :=
  of_byte_values (P := fun a => (a >>> 2) <<< 2 ||| ((a &&& 3) <<< 4) >>> 4 = a ∧
    (a >>> 4) <<< 4 ||| ((a &&& 15) <<< 2) >>> 2 = a ∧ (a >>> 6) <<< 6 ||| (a &&& 63) = a ∧ (a >>> 4) >>> 4 = 0 ∧
    ((a &&& 3) <<< 4) <<< 4 = 0 ∧ (a >>> 6) >>> 2 = 0 ∧ ((a &&& 15) <<< 2) <<< 6 = 0) (by decide +kernel) a

/-- The bytes of four characters. -/
theorem bytes_of_sextets (a b c : UInt8) :
    (a >>> 2) <<< 2 ||| ((a &&& 3) <<< 4 ||| b >>> 4) >>> 4 = a ∧
      ((a &&& 3) <<< 4 ||| b >>> 4) <<< 4 ||| ((b &&& 15) <<< 2 ||| c >>> 6) >>> 2 = b ∧
      ((b &&& 15) <<< 2 ||| c >>> 6) <<< 6 ||| (c &&& 63) = c := by
  obtain ⟨ha, -, -, -, hhigh, -, -⟩ := parts_of_byte a
  obtain ⟨-, hb, -, hlow, -, -, hhigh'⟩ := parts_of_byte b
  obtain ⟨-, -, hc, -, -, hlow', -⟩ := parts_of_byte c
  rw [UInt8.shiftRight_or, UInt8.shiftRight_or, UInt8.shiftLeft_or, UInt8.shiftLeft_or, hlow, hhigh, hlow', hhigh',
    UInt8.or_zero, UInt8.or_zero, UInt8.zero_or, UInt8.zero_or]
  exact ⟨ha, hb, hc⟩

theorem sextets_lt (a b c : UInt8) :
    a >>> 2 < 64 ∧ (a &&& 3) <<< 4 ||| b >>> 4 < 64 ∧ (b &&& 15) <<< 2 ||| c >>> 6 < 64 ∧ c &&& 63 < 64 := by
  obtain ⟨hfirst, ha, -, -, -, -⟩ := first_bits a
  obtain ⟨-, -, hb, hb', -, -⟩ := first_bits b
  obtain ⟨-, -, -, -, hc, hlast⟩ := first_bits c
  exact ⟨hfirst, or_lt ha hb, or_lt hb' hc, hlast⟩

/-- The character that fills up. -/
theorem b64rev_pad : mg_b64rev 61 = some 64 := rfl

theorem base64_decode_from_base64 (p : Bytes) : ∀ dst, base64_decode_from dst (base64 p) = dst ++ p := by
  fun_induction base64 p with
  | case1 a b c p ih =>
    intro dst
    obtain ⟨h1, h2, h3, h4⟩ := sextets_lt a b c
    obtain ⟨hr1, -, hn1⟩ := b64rev_idx _ h1
    obtain ⟨hr2, -, hn2⟩ := b64rev_idx _ h2
    obtain ⟨hr3, hp3, -⟩ := b64rev_idx _ h3
    obtain ⟨hr4, hp4, -⟩ := b64rev_idx _ h4
    obtain ⟨ha, hb, hc⟩ := bytes_of_sextets a b c
    simp only [sextets, List.cons_append, List.nil_append, base64_decode_from, hr1, hr2, hr3, hr4, hn1, hn2, hp3, hp4,
      or_self, if_false, ne_eq, not_false_eq_true, if_true, ha, hb, hc, ih, List.append_assoc]
  | case2 a b =>
    intro dst
    obtain ⟨h1, h2, h3, -⟩ := sextets_lt a b 0
    obtain ⟨hr1, -, hn1⟩ := b64rev_idx _ h1
    obtain ⟨hr2, -, hn2⟩ := b64rev_idx _ h2
    obtain ⟨hr3, hp3, -⟩ := b64rev_idx _ h3
    obtain ⟨ha, hb, -⟩ := bytes_of_sextets a b 0
    simp only [sextets, List.take_succ_cons, List.take_zero, List.cons_append, List.nil_append, base64_decode_from, hr1,
      hr2, hr3, b64rev_pad, hn1, hn2, hp3, or_self, if_false, ne_eq, not_false_eq_true, not_true_eq_false, if_true, ha,
      hb, List.append_assoc]
  | case3 a =>
    intro dst
    obtain ⟨h1, h2, -, -⟩ := sextets_lt a 0 0
    obtain ⟨hr1, -, hn1⟩ := b64rev_idx _ h1
    obtain ⟨hr2, -, hn2⟩ := b64rev_idx _ h2
    obtain ⟨ha, -, -⟩ := bytes_of_sextets a 0 0
    simp only [sextets, List.take_succ_cons, List.take_zero, List.cons_append, List.nil_append, base64_decode_from, hr1,
      hr2, b64rev_pad, hn1, hn2, or_self, if_false, ne_eq, not_true_eq_false, ha]
  | case4 =>
    intro dst
    exact (List.append_nil dst).symm

theorem encode_base64 (p : Bytes) : mg_base64_encode p = base64 p := base64_updates_final p [] rfl

/-- What has been encoded is decoded to the same bytes. -/
theorem decode_encode (p : Bytes) : mg_base64_decode (mg_base64_encode p) = p := by
  rw [mg_base64_decode, encode_base64, base64_decode_from_base64]
  rfl

/-! ## The text -/

theorem b64idx_printable (c : UInt8) : 43 ≤ mg_b64idx c ∧ mg_b64idx c ≤ 122 :=
  of_byte_values (P := fun c => 43 ≤ mg_b64idx c ∧ mg_b64idx c ≤ 122) (by decide +kernel) c

/-- It has no control characters. -/
theorem base64_printable (p : Bytes) : ∀ c ∈ base64 p, 32 ≤ c := by
  have hidx : ∀ x : UInt8, 32 ≤ mg_b64idx x := fun x => UInt8.le_trans (by decide) (b64idx_printable x).1
  fun_induction base64 p with
  | case1 a b c p ih =>
    intro d hd
    rcases List.mem_append.1 hd with h | h
    · simp only [sextets, List.mem_cons, List.not_mem_nil, or_false] at h
      rcases h with rfl | rfl | rfl | rfl <;> exact hidx _
    · exact ih d h
  | case2 a b =>
    intro d hd
    simp only [sextets, List.take_succ_cons, List.take_zero, List.mem_append, List.mem_cons, List.not_mem_nil,
      or_false] at hd
    rcases hd with (rfl | rfl | rfl) | rfl
    · exact hidx _
    · exact hidx _
    · exact hidx _
    · decide
  | case3 a =>
    intro d hd
    simp only [sextets, List.take_succ_cons, List.take_zero, List.mem_append, List.mem_cons, List.not_mem_nil,
      or_false] at hd
    rcases hd with (rfl | rfl) | rfl | rfl
    · exact hidx _
    · exact hidx _
    · decide
    · decide
  | case4 => intro d hd; cases hd

end RtcClient
