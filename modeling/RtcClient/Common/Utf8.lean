import Mathlib.Data.Nat.Bitwise
import Mathlib.Data.Set.List
import RtcClient.Lib.Reading
import RtcClient.Lib.Utf8
/-!
# Is a string UTF-8?

`is_utf8_chars` decodes the characters before a NUL. It accepts the encodings of scalar
values other than U+FFFE (`is_utf8_chars_iff`) and reads no byte behind the NUL
(`within_is_utf8_chars`). `is_utf8_str` only counts the bytes a lead byte announces, so it
also accepts longer forms and values that are none of a scalar (`utf8_checks_agree_iff`).
-/

namespace RtcClient

open Lib Lib.Utf8

/-! ## Decoding -/

theorem lt_of_get_ne_zero {data : Buffer} {i : Nat} (h : data.get i ≠ 0) :
    i < (data.bytes ++ data.beyond).length := by
  by_contra hge
  apply h
  rw [Buffer.get, List.getD_eq_getElem?_getD, List.getElem?_eq_none (Nat.le_of_not_lt hge)]
  rfl

theorem tmp_eq_zero_iff (x : UInt8) : ((x.toNat : Int) - 128) >>> (6 : Nat) = 0 ↔ Continues x := by
  rw [Int.shiftRight_eq_div_pow, Continues]
  omega

/-- The loop over the bytes behind a lead byte: where it ends, and what it has decoded. -/
def continuation_loop (data : Buffer) (byte : Nat) (codepoint top : UInt32) :
    Reading (Option (Nat × UInt32 × UInt32)) :=
  if codepoint &&& top ≠ 0 then
    let x := Reading.byte data byte
    let tmp : Int := x.value.toNat - 128
    x.after
      (if tmp >>> (6 : Nat) ≠ 0 then pure none
      else continuation_loop data (byte + 1) ((codepoint <<< 6) + UInt32.ofInt tmp) (top <<< 5))
  else pure (some (byte, codepoint, top))
termination_by (data.bytes ++ data.beyond).length - byte
decreasing_by
  rename_i h
  have hx := lt_of_get_ne_zero (Continues.ne_zero ((tmp_eq_zero_iff _).1 (not_not.1 h)))
  omega

/-- The checks of a decoded character of `length` bytes. -/
def rejected (length : Nat) (codepoint : UInt32) : Prop :=
  let min : UInt32 := if length = 1 then 0 else if length = 2 then 0x80 else 1 <<< UInt32.ofNat (5 * length - 4)
  codepoint < min ∨ codepoint ≥ 0x110000 ∨ codepoint = 0xFFFE ∨ codepoint ≥ 0xD800 ∧ codepoint ≤ 0xDFFF

instance (length : Nat) (codepoint : UInt32) : Decidable (rejected length codepoint) :=
  inferInstanceAs (Decidable (_ ∨ _))

/-- The position behind a character at `str`, if the character passes the checks. -/
def checked (str : Nat) : Nat × UInt32 × UInt32 → Option Nat
  | (byte, codepoint, top) =>
    if rejected (byte - str) (codepoint &&& ((top <<< 1) - 1)) then none else some byte

/-- One round of the outer loop: the position of the next character. -/
def next_char (data : Buffer) (str : Nat) : Reading (Option Nat) :=
  let first := Reading.byte data str
  let codepoint := first.value.toUInt32
  let top := (codepoint &&& 0x80) >>> 1
  first.after
    (if codepoint &&& 0xc0 = 0x80 ∨ codepoint ≥ 0xFE then pure none
    else
      let decoded := continuation_loop data (str + 1) codepoint top
      decoded.after (pure (decoded.value.bind (checked str))))

/-- Every byte behind a lead byte that the loop passes is a continuation byte. -/
theorem continuation_loop_le {data : Buffer} {byte byte' : Nat} {codepoint codepoint' top top' : UInt32}
    (h : (continuation_loop data byte codepoint top).value = some (byte', codepoint', top')) :
    byte ≤ byte' ∧ ∀ i, byte ≤ i → i < byte' → Continues (data.get i) := by
  fun_induction continuation_loop data byte codepoint top with
  | case1 byte codepoint top hbit x tmp ih =>
    rw [Reading.value_after, Reading.value_ite] at h
    split_ifs at h with hx
    obtain ⟨hle, hcontinues⟩ := ih hx h
    refine ⟨by omega, fun i hi hlt => ?_⟩
    rcases Nat.eq_or_lt_of_le hi with rfl | hgt
    · exact (tmp_eq_zero_iff _).1 (not_not.1 hx)
    · exact hcontinues i hgt hlt
  | case2 byte codepoint top hbit =>
    cases h
    exact ⟨Nat.le_refl _, fun i hi hlt => absurd hlt (by omega)⟩

theorem checked_eq_some {str str' : Nat} {decoded : Nat × UInt32 × UInt32} (h : checked str decoded = some str') :
    decoded.1 = str' := by
  obtain ⟨byte, codepoint, top⟩ := decoded
  rw [checked] at h
  split_ifs at h
  exact Option.some.inj h

theorem next_char_lt {data : Buffer} {str str' : Nat} (h : (next_char data str).value = some str') :
    str < str' ∧ ∀ i, str < i → i < str' → Continues (data.get i) := by
  unfold next_char at h
  rw [Reading.value_after, Reading.value_ite] at h
  split_ifs at h with hlead
  rw [Reading.value_after, Reading.value_pure] at h
  obtain ⟨⟨byte, codepoint, top⟩, hdecoded, hchecked⟩ := Option.bind_eq_some_iff.1 h
  obtain rfl := checked_eq_some hchecked
  exact continuation_loop_le hdecoded

/-- The string at `str`, up to its NUL. -/
def is_utf8_chars (data : Buffer) (str : Nat) : Reading Bool :=
  let first := Reading.byte data str
  first.after
    (if first.value ≠ 0 then
      let next := next_char data str
      next.after
        (match _h : next.value with
        | none => pure false
        | some str' => is_utf8_chars data str')
    else pure true)
termination_by (data.bytes ++ data.beyond).length - str
decreasing_by
  rename_i h
  have hx := lt_of_get_ne_zero h
  have hlt := (next_char_lt _h).1
  omega

/-! ## What the loop decodes -/

/-- What the loop holds after the bytes `ts` behind the lead byte `b`. -/
structure Decoding (b : UInt8) (ts : Bytes) (codepoint top : UInt32) : Prop where
  codepoint : codepoint.toNat = append_bits b.toNat ts % 2 ^ 32
  top : top.toNat = 2 ^ (6 + 5 * ts.length)

namespace Decoding

variable {b : UInt8} {ts : Bytes} {codepoint top : UInt32}

theorem length_le (h : Decoding b ts codepoint top) : ts.length ≤ 5 := by
  have hlt := top.toNat_lt
  rw [h.top] at hlt
  have := (Nat.pow_lt_pow_iff_right (by decide)).1 hlt
  omega

/-- The bit the loop looks at is one of the lead byte. -/
theorem bit_iff (h : Decoding b ts codepoint top) :
    codepoint &&& top ≠ 0 ↔ b.toNat / 2 ^ (6 - ts.length) % 2 = 1 := by
  have hlen := h.length_le
  have hlt := append_bits_lt ts
  rw [Ne, ← UInt32.toNat_inj, UInt32.toNat_and, h.top, h.codepoint, Nat.and_two_pow, append_bits_eq,
    UInt32.toNat_zero, Nat.mul_eq_zero, not_or, Nat.testBit_eq_decide_div_mod_eq]
  rw [and_iff_left (by positivity), Bool.toNat_eq_zero, Bool.not_eq_false, decide_eq_true_iff]
  generalize append_bits 0 ts = w at *
  generalize ts.length = k at *
  interval_cases k <;> omega

theorem step (h : Decoding b ts codepoint top) {x : UInt8} (hx : Continues x) (hlen : ts.length < 5) :
    Decoding b (ts ++ [x]) ((codepoint <<< 6) + UInt32.ofInt (x.toNat - 128)) (top <<< 5) where
  codepoint := by
    have htmp : UInt32.ofInt (x.toNat - 128) = UInt32.ofNat (x.toNat % 64) := by
      unfold Continues at hx
      unfold UInt32.ofInt
      congr 1
      omega
    rw [htmp, append_bits_concat, UInt32.toNat_add, UInt32.toNat_shiftLeft, h.codepoint, UInt32.toNat_ofNat',
      UInt32.toNat_ofNat, Nat.shiftLeft_eq]
    simp only [Nat.reducePow, Nat.reduceMod]
    omega
  top := by
    rw [UInt32.toNat_shiftLeft, h.top, UInt32.toNat_ofNat, Nat.shiftLeft_eq, List.length_append, List.length_singleton]
    generalize ts.length = k at *
    interval_cases k <;> rfl

theorem mask (h : Decoding b ts codepoint top) (x : UInt32) :
    (x &&& (top <<< 1 - 1)).toNat = x.toNat % 2 ^ (7 + 5 * ts.length) := by
  have hmask : (top <<< 1 - 1).toNat = 2 ^ min (7 + 5 * ts.length) 32 - 1 := by
    have hlen := h.length_le
    rw [UInt32.toNat_sub, UInt32.toNat_shiftLeft, h.top]
    generalize ts.length = k at *
    interval_cases k <;> rfl
  rw [UInt32.toNat_and, hmask, Nat.and_two_pow_sub_one_eq_mod]
  rcases Nat.le_total (7 + 5 * ts.length) 32 with hle | hle
  · rw [Nat.min_eq_left hle]
  · have hlt : x.toNat < 2 ^ (7 + 5 * ts.length) :=
      Nat.lt_of_lt_of_le x.toNat_lt (Nat.pow_le_pow_right (by decide) hle)
    rw [Nat.min_eq_right hle, Nat.mod_eq_of_lt x.toNat_lt, Nat.mod_eq_of_lt hlt]

/-- In the end the mask leaves the value. -/
theorem value_eq (h : Decoding b ts codepoint top) (hgroup : Group b ts) (hts : ts ≠ []) :
    (codepoint &&& (top <<< 1 - 1)).toNat = value b ts := by
  have hlen := h.length_le
  have hlead := (following_iff b _).1 hgroup.following
  have hpos := List.length_pos_iff.2 hts
  have hlt := append_bits_lt ts
  rw [h.mask, h.codepoint, value, if_neg hts, append_bits_eq,
    append_bits_eq (_ % _)]
  generalize append_bits 0 ts = w at *
  generalize ts.length = k at *
  interval_cases k <;> omega

end Decoding

/-- One round of the loop. -/
theorem continuation_loop_value (data : Buffer) (byte : Nat) (codepoint top : UInt32) :
    (continuation_loop data byte codepoint top).value =
      if codepoint &&& top ≠ 0 then
        if Continues (data.get byte) then
          (continuation_loop data (byte + 1) ((codepoint <<< 6) + UInt32.ofInt ((data.get byte).toNat - 128))
            (top <<< 5)).value
        else none
      else some (byte, codepoint, top) := by
  rw [continuation_loop, Reading.value_ite]
  by_cases hbit : codepoint &&& top ≠ 0
  · rw [if_pos hbit, if_pos hbit, Reading.value_after, Reading.value_ite, Reading.value_byte]
    by_cases hx : Continues (data.get byte)
    · rw [if_pos hx, if_neg (not_not.2 ((tmp_eq_zero_iff _).2 hx))]
    · rw [if_neg hx, if_pos (mt (tmp_eq_zero_iff _).1 hx)]
      rfl
  · rw [if_neg hbit, if_neg hbit]
    rfl

/-- The loop takes the bytes the lead byte announces if they are continuation bytes. -/
theorem continuation_loop_eq (data : Buffer) {b : UInt8} {ts : Bytes} {codepoint top : UInt32} (byte : Nat) {n m : Nat}
    (h : Decoding b ts codepoint top) (hb : following b = some n) (hn : 0 < n) (hm : n = ts.length + m) :
    ((∀ x ∈ data.read byte m, Continues x) ∧
      ∃ codepoint' top', (continuation_loop data byte codepoint top).value = some (byte + m, codepoint', top') ∧
        Decoding b (ts ++ data.read byte m) codepoint' top') ∨
      (¬ ∀ x ∈ data.read byte m, Continues x) ∧ (continuation_loop data byte codepoint top).value = none := by
  induction m generalizing byte ts codepoint top with
  | zero =>
    have hbit : ¬ codepoint &&& top ≠ 0 := by
      rw [h.bit_iff, lead_bit hb hn (by omega)]
      omega
    rw [continuation_loop_value, if_neg hbit]
    refine .inl ⟨List.forall_mem_nil _, codepoint, top, rfl, ?_⟩
    rw [Buffer.read, List.range_zero, List.map_nil, List.append_nil]
    exact h
  | succ m ih =>
    have hlen := h.length_le
    have hlead := (following_iff b n).1 hb
    have hbit : codepoint &&& top ≠ 0 := by
      rw [h.bit_iff, lead_bit hb hn (by omega)]
      omega
    rw [continuation_loop_value, if_pos hbit, Buffer.read_succ]
    by_cases hx : Continues (data.get byte)
    · have hlength : n = (ts ++ [data.get byte]).length + m := by
        rw [List.length_append, List.length_singleton]
        omega
      have hrest := ih (byte + 1) (h.step hx (by omega)) hlength
      rw [List.append_assoc, Nat.add_right_comm, Nat.add_assoc] at hrest
      rw [if_pos hx]
      simp only [List.forall_mem_cons, hx, true_and]
      exact hrest
    · rw [if_neg hx]
      exact .inr ⟨fun hall => hx (hall _ List.mem_cons_self), rfl⟩

theorem rejected_iff {n : Nat} (hn : n ≤ 5) (codepoint : UInt32) :
    ¬ rejected (n + 1) codepoint ↔ Shortest n codepoint.toNat ∧ codepoint.toNat ≠ 0xFFFE := by
  have hmin : (if n + 1 = 1 then 0 else if n + 1 = 2 then 0x80
      else 1 <<< UInt32.ofNat (5 * (n + 1) - 4) : UInt32).toNat = least n := by
    interval_cases n <;> rfl
  change ¬ (codepoint < _ ∨ codepoint ≥ _ ∨ codepoint = _ ∨ codepoint ≥ _ ∧ codepoint ≤ _) ↔ _
  rw [UInt32.lt_iff_toNat_lt, hmin, ge_iff_le, ge_iff_le, UInt32.le_iff_toNat_le, UInt32.le_iff_toNat_le,
    UInt32.le_iff_toNat_le, ← UInt32.toNat_inj]
  simp only [UInt32.toNat_ofNat, Nat.reducePow, Nat.reduceMod]
  constructor
  · intro h
    exact ⟨⟨by omega, by omega⟩, by omega⟩
  · rintro ⟨⟨hleast, hvalid⟩, hne⟩
    omega

/-- The test of the first byte. -/
theorem following_eq_none_iff (b : UInt8) :
    b.toUInt32 &&& 0xc0 = 0x80 ∨ b.toUInt32 ≥ 0xFE ↔ following b = none :=
  forall_byte (P := fun b => b.toUInt32 &&& 0xc0 = 0x80 ∨ b.toUInt32 ≥ 0xFE ↔ following b = none)
    (by decide +kernel) b

theorem top_eq (b : UInt8) : (b.toUInt32 &&& 0x80) >>> 1 = if b.toNat < 0x80 then 0 else 0x40 :=
  forall_byte (P := fun b => (b.toUInt32 &&& 0x80) >>> 1 = if b.toNat < 0x80 then 0 else 0x40) (by decide +kernel) b

theorem next_char_value (data : Buffer) (str : Nat) :
    (next_char data str).value =
      if following (data.get str) = none then none
      else (continuation_loop data (str + 1) (data.get str).toUInt32
        (if (data.get str).toNat < 0x80 then 0 else 0x40)).value.bind (checked str) := by
  unfold next_char
  rw [Reading.value_after, Reading.value_ite, Reading.value_byte]
  by_cases hb : following (data.get str) = none
  · rw [if_pos hb, if_pos ((following_eq_none_iff _).2 hb)]
    rfl
  · rw [if_neg hb, if_neg (mt (following_eq_none_iff _).1 hb), top_eq]
    rfl

theorem Decoding.start {b : UInt8} : Decoding b [] b.toUInt32 0x40 where
  codepoint := (Nat.mod_eq_of_lt (Nat.lt_trans b.toNat_lt (by decide))).symm
  top := rfl

/-- What the loop makes of the bytes a lead byte announces. -/
theorem decoded_eq (data : Buffer) {b : UInt8} {n : Nat} (byte : Nat) (hb : following b = some n) :
    ((∀ x ∈ data.read byte n, Continues x) ∧
      ∃ codepoint top, (continuation_loop data byte b.toUInt32 (if b.toNat < 0x80 then 0 else 0x40)).value =
          some (byte + n, codepoint, top) ∧
        (codepoint &&& ((top <<< 1) - 1)).toNat = value b (data.read byte n)) ∨
      (¬ ∀ x ∈ data.read byte n, Continues x) ∧
        (continuation_loop data byte b.toUInt32 (if b.toNat < 0x80 then 0 else 0x40)).value = none := by
  have hlead := (following_iff b n).1 hb
  rcases Nat.eq_zero_or_pos n with rfl | hn
  · -- the mask of an ASCII character is all ones
    rw [if_pos (by omega), continuation_loop_value, UInt32.and_zero, if_neg (by simp)]
    refine .inl ⟨List.forall_mem_nil _, _, _, rfl, ?_⟩
    rw [show ((0 : UInt32) <<< 1) - 1 = -1 from rfl, UInt32.and_neg_one]
    rfl
  · rw [if_neg (c := b.toNat < 0x80) (by omega)]
    have hloop := continuation_loop_eq data byte (m := n) Decoding.start hb hn (by simp)
    rcases hloop with ⟨hall, codepoint, top, hvalue, hdecoding⟩ | hnone
    · rw [List.nil_append] at hdecoding
      refine .inl ⟨hall, codepoint, top, hvalue, hdecoding.value_eq ⟨?_, hall⟩ ?_⟩
      · rw [hb, Buffer.read_length]
      · apply List.ne_nil_of_length_pos
        rwa [Buffer.read_length]
    · exact .inr hnone

/-- A round goes over a character that it takes. -/
theorem next_char_iff_group {data : Buffer} {str str' : Nat} :
    (next_char data str).value = some str' ↔
      ∃ ts, str' = str + 1 + ts.length ∧ data.read (str + 1) ts.length = ts ∧ Group (data.get str) ts ∧
        Shortest ts.length (value (data.get str) ts) ∧ value (data.get str) ts ≠ 0xFFFE := by
  rw [next_char_value]
  generalize data.get str = b
  cases hb : following b with
  | none =>
    rw [if_pos rfl]
    constructor
    · intro h
      cases h
    · rintro ⟨ts, -, -, ⟨hfollowing, -⟩, -⟩
      rw [hb] at hfollowing
      cases hfollowing
  | some n =>
    have hlead := (following_iff b n).1 hb
    have hdecoded := decoded_eq data (str + 1) hb
    rw [if_neg (Option.some_ne_none _)]
    generalize (if b.toNat < 0x80 then 0 else 0x40 : UInt32) = top at *
    constructor
    · intro h
      rcases hdecoded with ⟨hall, codepoint, top, hvalue, hcodepoint⟩ | ⟨-, hnone⟩
      · rw [hvalue, Option.bind_some, checked] at h
        split_ifs at h with hrejected
        rw [show str + 1 + n - str = n + 1 by omega, rejected_iff (by omega), hcodepoint] at hrejected
        refine ⟨data.read (str + 1) n, ?_, ?_, ⟨?_, hall⟩, ?_⟩
        · rw [Buffer.read_length]
          exact (Option.some.inj h).symm
        · rw [Buffer.read_length]
        · rw [Buffer.read_length, hb]
        · rwa [Buffer.read_length]
      · rw [hnone] at h
        cases h
    · rintro ⟨ts, rfl, hread, ⟨hfollowing, hall⟩, hshortest⟩
      obtain rfl := Option.some.inj (hb.symm.trans hfollowing)
      rw [hread] at hdecoded
      rcases hdecoded with ⟨-, codepoint, top, hvalue, hcodepoint⟩ | ⟨hnot, -⟩
      · rw [hvalue, Option.bind_some, checked, if_neg]
        rwa [show str + 1 + ts.length - str = ts.length + 1 by omega, rejected_iff (by omega), hcodepoint]
      · exact absurd hall hnot

/-- A round goes over the encoding of a scalar other than U+FFFE. -/
theorem next_char_iff {data : Buffer} {str str' : Nat} :
    (next_char data str).value = some str' ↔
      ∃ c : Char, c.toNat ≠ 0xFFFE ∧ str' = str + (encode c).length ∧ data.read str (encode c).length = encode c := by
  rw [next_char_iff_group]
  constructor
  · rintro ⟨ts, rfl, hread, hgroup, hshortest, hne⟩
    obtain ⟨c, hc, hencode⟩ := (exists_encode_iff (· ≠ 0xFFFE) _ _).2 ⟨hgroup, hshortest, hne⟩
    refine ⟨c, hc, ?_, ?_⟩
    · rw [hencode, List.length_cons]
      omega
    · rw [hencode, List.length_cons, Buffer.read_succ, hread]
  · rintro ⟨c, hne, rfl, hread⟩
    obtain ⟨b, ts, hencode, hgroup, hvalue, hshortest⟩ := group_encode c
    rw [hencode, List.length_cons, Buffer.read_succ] at hread
    obtain ⟨rfl, hts⟩ := List.cons.inj hread
    rw [← hvalue] at hshortest hne
    refine ⟨ts, ?_, hts, hgroup, hshortest, hne⟩
    rw [hencode, List.length_cons]
    omega

theorem is_utf8_chars_value (data : Buffer) (str : Nat) :
    (is_utf8_chars data str).value =
      if data.get str ≠ 0 then
        match (next_char data str).value with
        | none => false
        | some str' => (is_utf8_chars data str').value
      else true := by
  rw [is_utf8_chars, Reading.value_after, Reading.value_ite, Reading.value_byte]
  by_cases h0 : data.get str ≠ 0
  · rw [if_pos h0, if_pos h0, Reading.value_after]
    split <;> rename_i hnext <;> rw [hnext]
    rfl
  · rw [if_neg h0, if_neg h0]
    rfl

/-! ## The characters before a NUL -/

theorem read_eq_iff (pre rest beyond : Bytes) {g : Bytes} (hg : 0 ∉ g) :
    Buffer.read ⟨pre ++ rest ++ [0], beyond⟩ pre.length g.length = g ↔ g <+: rest := by
  rcases Nat.lt_or_ge rest.length g.length with hlt | hle
  · -- the bytes read have the NUL among them
    apply iff_of_false
    · intro h
      apply hg
      have hmem := Buffer.get_mem_read ⟨pre ++ rest ++ [0], beyond⟩ pre.length hlt
      rw [h] at hmem
      convert hmem
      simp [Buffer.get, List.getD_eq_getElem?_getD]
    · intro h
      exact absurd h.length_le (Nat.not_le.2 hlt)
  · rw [Buffer.read_eq _ (by simp only [List.length_append]; omega), List.append_assoc, List.drop_left,
      List.take_append_of_le_length hle, List.prefix_iff_eq_take, eq_comm]

theorem zero_notMem_encode {c : Char} {b : UInt8} {ts : Bytes} (h : encode c = b :: ts) (hb : b ≠ 0) :
    0 ∉ encode c := by
  obtain ⟨b', ts', heq, hgroup, -⟩ := group_encode c
  obtain ⟨rfl, rfl⟩ := List.cons.inj (heq.symm.trans h)
  rw [h]
  intro hmem
  rcases List.mem_cons.1 hmem with h0 | hmem
  · exact hb h0.symm
  · exact (hgroup.continues 0 hmem).ne_zero rfl

theorem get_append_zero (pre rest beyond : Bytes) :
    Buffer.get ⟨pre ++ rest ++ [0], beyond⟩ pre.length = rest.headD 0 := by
  cases rest <;> simp [Buffer.get, List.getD_eq_getElem?_getD]

/-- What a round can take is what the string can begin with. -/
theorem next_char_iff_prefix (pre : Bytes) {rest : Bytes} (beyond : Bytes) (str' : Nat) (h0 : rest.headD 0 ≠ 0) :
    (next_char ⟨pre ++ rest ++ [0], beyond⟩ pre.length).value = some str' ↔
      ∃ c : Char, c.toNat ≠ 0xFFFE ∧ str' = pre.length + (encode c).length ∧ encode c <+: rest := by
  rw [next_char_iff]
  apply exists_congr
  intro c
  obtain ⟨b, ts, hencode, -⟩ := group_encode c
  refine and_congr_right fun _ => and_congr_right fun _ => ?_
  constructor
  · intro hread
    have hb := hread
    rw [hencode, List.length_cons, Buffer.read_succ, get_append_zero] at hb
    have hzero := zero_notMem_encode hencode (fun hb0 => h0 ((List.cons.inj hb).1.trans hb0))
    exact (read_eq_iff pre rest beyond hzero).1 hread
  · intro hbegins
    have hb := hbegins
    obtain ⟨tl, rfl⟩ := hbegins
    rw [hencode] at h0
    exact (read_eq_iff pre _ beyond (zero_notMem_encode hencode h0)).2 hb

/-- A whole run. -/
theorem is_utf8_chars_value_iff (pre rest beyond : Bytes) (hnul : 0 ∉ rest) :
    (is_utf8_chars ⟨pre ++ rest ++ [0], beyond⟩ pre.length).value = true ↔
      ∃ cs : List Char, (∀ c ∈ cs, c.toNat ≠ 0xFFFE) ∧ rest = cs.flatMap encode := by
  induction hn : rest.length using Nat.strong_induction_on generalizing pre rest with
  | _ n ih =>
    subst hn
    rw [is_utf8_chars_value, get_append_zero]
    by_cases h0 : rest.headD 0 = 0
    · have hnil : rest = [] := by
        cases rest with
        | nil => rfl
        | cons b tl => exact absurd (h0 ▸ List.mem_cons_self) hnul
      subst hnil
      rw [if_neg (not_not.2 h0)]
      exact iff_of_true rfl ⟨[], by simp, rfl⟩
    · have hround (str' : Nat) := next_char_iff_prefix pre beyond str' h0
      rw [if_pos h0]
      cases hnext : (next_char ⟨pre ++ rest ++ [0], beyond⟩ pre.length).value with
      | none =>
        apply iff_of_false (by simp)
        rintro ⟨cs, hcs, rfl⟩
        cases cs with
        | nil => exact h0 rfl
        | cons c cs =>
          have hsome := (hround _).2 ⟨c, hcs c List.mem_cons_self, rfl, List.prefix_append _ _⟩
          rw [hnext] at hsome
          cases hsome
      | some str' =>
        obtain ⟨c, hc, rfl, tl, rfl⟩ := (hround str').1 hnext
        have hpos : 0 < (encode c).length := String.length_utf8EncodeChar c ▸ c.utf8Size_pos
        have hrest := ih tl.length (by rw [List.length_append]; omega) (pre ++ encode c) tl
          (fun hmem => hnul (List.mem_append_right _ hmem)) rfl
        rw [List.length_append, List.append_assoc pre] at hrest
        refine hrest.trans ⟨?_, ?_⟩
        · rintro ⟨cs, hcs, rfl⟩
          exact ⟨c :: cs, List.forall_mem_cons.2 ⟨hc, hcs⟩, rfl⟩
        · rintro ⟨cs, hcs, heq⟩
          cases cs with
          | nil =>
            have hlen := congrArg List.length heq
            rw [List.length_append, List.flatMap_nil, List.length_nil] at hlen
            omega
          | cons c' cs =>
            -- the round takes one length only
            have hsome := (hround _).2 ⟨c', hcs c' List.mem_cons_self, rfl, heq ▸ List.prefix_append _ _⟩
            rw [hnext] at hsome
            have hlen := Nat.add_left_cancel (Option.some.inj hsome)
            obtain ⟨-, htl⟩ := List.append_inj heq hlen
            exact ⟨cs, fun d hd => hcs d (List.mem_cons_of_mem _ hd), htl⟩

/-! ## Nothing is read behind the NUL -/

theorem within_continuation_loop {data : Buffer} {z byte : Nat} (hz : data.get z = 0) (h : byte ≤ z)
    (codepoint top : UInt32) : (continuation_loop data byte codepoint top).Within byte (z + 1) := by
  fun_induction continuation_loop data byte codepoint top with
  | case1 byte codepoint top hbit x tmp ih =>
    apply Reading.Within.after
    · exact .byte ⟨Nat.le_refl _, by omega⟩
    · apply Reading.Within.ite
      · intro _
        exact .pure _
      · intro hx
        have hne : byte ≠ z := by
          rintro rfl
          exact ((tmp_eq_zero_iff _).1 (not_not.1 hx)).ne_zero hz
        exact (ih hx (by omega)).mono (by omega) (Nat.le_refl _)
  | case2 byte codepoint top hbit => exact .pure _

theorem within_next_char {data : Buffer} {z str : Nat} (hz : data.get z = 0) (h : str < z) :
    (next_char data str).Within str (z + 1) := by
  apply Reading.Within.after
  · exact .byte ⟨Nat.le_refl _, by omega⟩
  · apply Reading.Within.ite
    · intro _
      exact .pure _
    · intro _
      apply Reading.Within.after
      · exact (within_continuation_loop hz h _ _).mono (Nat.le_succ _) (Nat.le_refl _)
      · exact .pure _

/-- Every read is at or before the NUL. -/
theorem within_is_utf8_chars {data : Buffer} {z : Nat} (hz : data.get z = 0) (str : Nat) (h : str ≤ z) :
    (is_utf8_chars data str).Within str (z + 1) := by
  induction hm : z - str using Nat.strong_induction_on generalizing str with
  | _ m ih =>
    subst hm
    rw [is_utf8_chars]
    apply Reading.Within.after
    · exact .byte ⟨Nat.le_refl _, by omega⟩
    · apply Reading.Within.ite
      · intro h0
        have hne : str ≠ z := by
          rintro rfl
          exact h0 hz
        apply Reading.Within.after
        · exact within_next_char hz (by omega)
        · split
          · exact .pure _
          · rename_i str' hnext
            obtain ⟨hlt, hcontinues⟩ := next_char_lt hnext
            have hle : str' ≤ z := by
              by_contra hgt
              exact (hcontinues z (by omega) (by omega)).ne_zero hz
            exact (ih (z - str') (by omega) str' hle rfl).mono (by omega) (Nat.le_refl _)
      · intro _
        exact .pure _

/-- `is_utf8_chars` accepts the encodings of scalar values other than U+FFFE, and reads up to the NUL. -/
theorem is_utf8_chars_iff (s beyond : Bytes) (hnul : 0 ∉ s) :
    ((is_utf8_chars ⟨s ++ [0], beyond⟩ 0).value = true ↔
        ∃ cs : List Char, (∀ c ∈ cs, 0 < c.toNat ∧ c.toNat ≠ 0xFFFE) ∧ s = cs.flatMap encode) ∧
      ∀ i ∈ (is_utf8_chars ⟨s ++ [0], beyond⟩ 0).reads, i ≤ s.length := by
  constructor
  · refine (is_utf8_chars_value_iff [] s beyond hnul).trans ⟨?_, ?_⟩
    · rintro ⟨cs, hcs, rfl⟩
      refine ⟨cs, fun c hc => ⟨Nat.pos_of_ne_zero fun h0 => hnul ?_, hcs c hc⟩, rfl⟩
      apply List.mem_flatMap.2 ⟨c, hc, ?_⟩
      rw [encode_eq, h0]
      exact List.mem_singleton_self _
    · rintro ⟨cs, hcs, rfl⟩
      exact ⟨cs, fun c hc => (hcs c hc).2, rfl⟩
  · intro i hi
    have hz : Buffer.get ⟨s ++ [0], beyond⟩ s.length = 0 := by
      simpa using get_append_zero s [] beyond
    exact Nat.le_of_lt_succ (within_is_utf8_chars hz 0 (Nat.zero_le _) i hi).2

theorem is_utf8_chars_iff_letter :
    ((is_utf8_chars ⟨[0x61, 0xC3, 0xA9] ++ [0], [7]⟩ 0).value = true ↔
        ∃ cs : List Char, (∀ c ∈ cs, 0 < c.toNat ∧ c.toNat ≠ 0xFFFE) ∧ [0x61, 0xC3, 0xA9] = cs.flatMap encode) ∧
      ∀ i ∈ (is_utf8_chars ⟨[0x61, 0xC3, 0xA9] ++ [0], [7]⟩ 0).reads, i ≤ 3 :=
  is_utf8_chars_iff [0x61, 0xC3, 0xA9] [7] (by decide)

/-! ## Counting -/

/-- The bytes of a character with this first byte. -/
def bytes_count (chr : UInt8) : Option Nat :=
  if chr ≥ 0xFC ∧ chr ≤ 0xFD then some 6
  else if chr ≥ 0xF8 then some 5
  else if chr ≥ 0xF0 then some 4
  else if chr ≥ 0xE0 then some 3
  else if chr ≥ 0xC0 then some 2
  else none

/-- One round of the loop over `bytesCount` and `allAreAscii`. -/
def is_utf8_round : Nat × Bool → UInt8 → Option (Nat × Bool)
  | (bytesCount, allAreAscii), chr =>
    let allAreAscii := if chr &&& 0x80 ≠ 0 then false else allAreAscii
    if bytesCount = 0 then
      if chr ≥ 0x80 then
        match bytes_count chr with
        | some bytesCount => some (bytesCount - 1, allAreAscii)
        | none => none
      else some (bytesCount, allAreAscii)
    else if chr &&& 0xC0 ≠ 0x80 then none
    else some (bytesCount - 1, allAreAscii)

def is_utf8_str (str : Bytes) : Bool :=
  match str.foldlM is_utf8_round (0, true) with
  | none => false
  | some (bytesCount, allAreAscii) =>
    if bytesCount > 0 then false
    else if allAreAscii then true
    else true

/-- A lead byte and the bytes it announces, where 0xFE and 0xFF pass for the lead of five bytes. -/
def Announced (g : Bytes) : Prop :=
  ∃ b ts, g = b :: ts ∧ (following b = some ts.length ∨ 0xFE ≤ b.toNat ∧ ts.length = 4) ∧ ∀ x ∈ ts, Continues x

/-- How many bytes the counting waits for behind a first byte. -/
def announced_count (b : UInt8) : Option Nat := if 0xFE ≤ b.toNat then some 4 else following b

theorem bytes_count_iff (b : UInt8) :
    (if b ≥ 0x80 then (bytes_count b).map (· - 1) else some 0) = announced_count b :=
  forall_byte (P := fun b => (if b ≥ 0x80 then (bytes_count b).map (· - 1) else some 0) = announced_count b)
    (by decide +kernel) b

theorem continues_iff_and (x : UInt8) : ¬ x &&& 0xC0 ≠ 0x80 ↔ Continues x :=
  forall_byte (P := fun x => ¬ x &&& 0xC0 ≠ 0x80 ↔ Continues x) (by decide +kernel) x

theorem is_utf8_round_zero (ascii : Bool) (chr : UInt8) :
    ∃ ascii', is_utf8_round (0, ascii) chr = (announced_count chr).map (fun n => (n, ascii')) := by
  refine ⟨if chr &&& 0x80 ≠ 0 then false else ascii, ?_⟩
  rw [← bytes_count_iff]
  simp only [is_utf8_round, if_true]
  split
  · cases bytes_count chr <;> rfl
  · rfl

theorem is_utf8_round_succ (n : Nat) (ascii : Bool) (chr : UInt8) :
    ∃ ascii', is_utf8_round (n + 1, ascii) chr = if Continues chr then some (n, ascii') else none := by
  refine ⟨if chr &&& 0x80 ≠ 0 then false else ascii, ?_⟩
  simp only [is_utf8_round, Nat.add_one_ne_zero, if_false, Nat.add_sub_cancel]
  by_cases h : Continues chr
  · rw [if_pos h, if_neg ((continues_iff_and chr).2 h)]
  · rw [if_neg h, if_pos (not_not.1 (mt (continues_iff_and chr).1 h))]

theorem Announced.ne_nil {g : Bytes} (h : Announced g) : g ≠ [] := by
  obtain ⟨b, ts, rfl, -⟩ := h
  exact List.cons_ne_nil b ts

/-- A lead byte announces one number of bytes. -/
theorem announced_cons_iff (b : UInt8) (ts : Bytes) :
    Announced (b :: ts) ↔ announced_count b = some ts.length ∧ ∀ x ∈ ts, Continues x := by
  unfold announced_count
  have hlead := following_iff b ts.length
  have hb := b.toNat_lt
  constructor
  · rintro ⟨b', ts', heq, hlen, hall⟩
    obtain ⟨rfl, rfl⟩ := List.cons.inj heq
    refine ⟨?_, hall⟩
    split_ifs with hfe
    · rw [hlead] at hlen
      rw [Option.some.injEq]
      omega
    · exact hlen.resolve_right (fun h => hfe h.1)
  · rintro ⟨hlen, hall⟩
    refine ⟨b, ts, rfl, ?_, hall⟩
    split_ifs at hlen with hfe
    · exact Or.inr ⟨hfe, (Option.some.inj hlen).symm⟩
    · exact Or.inl hlen

/-- So many continuation bytes, and then whole groups. -/
def Awaited (n : Nat) (s : Bytes) : Prop :=
  ∃ (ts : Bytes) (gs : List Bytes), s = ts ++ gs.flatten ∧ ts.length = n ∧ (∀ x ∈ ts, Continues x) ∧
    ∀ g ∈ gs, Announced g

theorem awaited_zero_iff (s : Bytes) : Awaited 0 s ↔ ∃ gs : List Bytes, s = gs.flatten ∧ ∀ g ∈ gs, Announced g := by
  constructor
  · rintro ⟨ts, gs, rfl, hlen, -, hgs⟩
    obtain rfl := List.eq_nil_of_length_eq_zero hlen
    exact ⟨gs, rfl, hgs⟩
  · rintro ⟨gs, rfl, hgs⟩
    exact ⟨[], gs, rfl, rfl, List.forall_mem_nil _, hgs⟩

theorem awaited_nil_iff (n : Nat) : Awaited n [] ↔ n = 0 := by
  constructor
  · rintro ⟨ts, gs, hnil, rfl, -⟩
    obtain ⟨rfl, -⟩ := List.append_eq_nil_iff.1 hnil.symm
    rfl
  · rintro rfl
    exact ⟨[], [], rfl, rfl, List.forall_mem_nil _, List.forall_mem_nil _⟩

theorem awaited_succ_cons_iff (n : Nat) (x : UInt8) (s : Bytes) :
    Awaited (n + 1) (x :: s) ↔ Continues x ∧ Awaited n s := by
  constructor
  · rintro ⟨ts, gs, heq, hlen, hts, hgs⟩
    cases ts with
    | nil => cases hlen
    | cons y ts =>
      obtain ⟨rfl, rfl⟩ := List.cons.inj heq
      obtain ⟨hx, hts⟩ := List.forall_mem_cons.1 hts
      exact ⟨hx, ts, gs, rfl, Nat.succ.inj hlen, hts, hgs⟩
  · rintro ⟨hx, ts, gs, rfl, rfl, hts, hgs⟩
    exact ⟨x :: ts, gs, rfl, rfl, List.forall_mem_cons.2 ⟨hx, hts⟩, hgs⟩

/-- The first byte begins a group. -/
theorem awaited_zero_cons_iff (x : UInt8) (s : Bytes) :
    Awaited 0 (x :: s) ↔ ∃ k, announced_count x = some k ∧ Awaited k s := by
  rw [awaited_zero_iff]
  constructor
  · rintro ⟨gs, heq, hgs⟩
    cases gs with
    | nil => cases heq
    | cons g gs =>
      obtain ⟨hg, hrest⟩ := List.forall_mem_cons.1 hgs
      cases g with
      | nil => exact absurd rfl hg.ne_nil
      | cons y ts =>
        obtain ⟨rfl, rfl⟩ := List.cons.inj heq
        obtain ⟨hcount, hts⟩ := (announced_cons_iff x ts).1 hg
        exact ⟨ts.length, hcount, ts, gs, rfl, rfl, hts, hrest⟩
  · rintro ⟨k, hcount, ts, gs, rfl, rfl, hts, hgs⟩
    exact ⟨(x :: ts) :: gs, rfl, List.forall_mem_cons.2 ⟨(announced_cons_iff x ts).2 ⟨hcount, hts⟩, hgs⟩⟩

/-- The loop ends without missing bytes if the awaited ones come, and then whole groups. -/
theorem is_utf8_run_iff (s : Bytes) (n : Nat) (ascii : Bool) :
    (∃ ascii', s.foldlM is_utf8_round (n, ascii) = some (0, ascii')) ↔ Awaited n s := by
  induction s generalizing n ascii with
  | nil =>
    rw [awaited_nil_iff]
    constructor
    · rintro ⟨ascii', h⟩
      cases h
      rfl
    · rintro rfl
      exact ⟨ascii, rfl⟩
  | cons x s ih =>
    rw [List.foldlM_cons]
    cases n with
    | zero =>
      obtain ⟨ascii', hround⟩ := is_utf8_round_zero ascii x
      rw [hround, awaited_zero_cons_iff]
      cases hcount : announced_count x with
      | none => exact iff_of_false (fun ⟨_, h⟩ => nomatch h) (fun ⟨_, h, _⟩ => nomatch h)
      | some k =>
        refine (ih k ascii').trans ⟨fun h => ⟨k, rfl, h⟩, ?_⟩
        rintro ⟨k', hk, h⟩
        rwa [Option.some.inj hk]
    | succ n =>
      obtain ⟨ascii', hround⟩ := is_utf8_round_succ n ascii x
      rw [hround, awaited_succ_cons_iff]
      by_cases hx : Continues x
      · rw [if_pos hx]
        exact (ih n ascii').trans (and_iff_right hx).symm
      · rw [if_neg hx]
        exact iff_of_false (fun ⟨_, h⟩ => nomatch h) (fun h => hx h.1)

theorem is_utf8_str_iff (s : Bytes) :
    is_utf8_str s = true ↔ ∃ gs : List Bytes, s = gs.flatten ∧ ∀ g ∈ gs, Announced g := by
  rw [← awaited_zero_iff, ← is_utf8_run_iff s 0 true, is_utf8_str]
  match s.foldlM is_utf8_round (0, true) with
  | none => exact iff_of_false (by simp) (fun ⟨_, h⟩ => nomatch h)
  | some (0, ascii) => exact iff_of_true (by simp) ⟨ascii, rfl⟩
  | some (n + 1, ascii) => exact iff_of_false (by simp) (fun ⟨_, h⟩ => nomatch h)

theorem announced_encode (c : Char) : Announced (encode c) := by
  obtain ⟨b, ts, hencode, hgroup, -⟩ := group_encode c
  exact ⟨b, ts, hencode, Or.inl hgroup.following, hgroup.continues⟩

/-- A string is made of such groups in one way only. -/
theorem announced_unique {gs gs' : List Bytes} (h : ∀ g ∈ gs, Announced g) (h' : ∀ g ∈ gs', Announced g)
    (heq : gs.flatten = gs'.flatten) : gs = gs' := by
  induction gs generalizing gs' with
  | nil =>
    cases gs' with
    | nil => rfl
    | cons g' gs' => exact absurd (List.append_eq_nil_iff.1 heq.symm).1 (h' g' List.mem_cons_self).ne_nil
  | cons g gs ih =>
    obtain ⟨hg, hgs⟩ := List.forall_mem_cons.1 h
    cases gs' with
    | nil => exact absurd (List.append_eq_nil_iff.1 heq).1 hg.ne_nil
    | cons g' gs' =>
      obtain ⟨hg', hgs'⟩ := List.forall_mem_cons.1 h'
      obtain ⟨b, ts, rfl, -⟩ := id hg
      obtain ⟨b', ts', rfl, -⟩ := id hg'
      obtain ⟨rfl, htail⟩ := List.cons.inj heq
      have hlen := Option.some.inj (((announced_cons_iff b ts).1 hg).1.symm.trans ((announced_cons_iff b ts').1 hg').1)
      obtain ⟨rfl, hrest⟩ := List.append_inj htail hlen
      rw [ih hgs hgs' hrest]

theorem toNat_FFFE {c : Char} (h : c.toNat = 0xFFFE) : encode c = [0xEF, 0xBF, 0xBE] := by
  rw [encode_eq, h]
  rfl

/-- The two checks agree unless the string is made of groups of which one is no encoding of a scalar. -/
theorem utf8_checks_agree_iff (s beyond : Bytes) (hnul : 0 ∉ s) (hnot : ¬ [0xEF, 0xBF, 0xBE] <:+: s) :
    is_utf8_str s = (is_utf8_chars ⟨s ++ [0], beyond⟩ 0).value ↔
      ¬ ∃ gs : List Bytes, s = gs.flatten ∧ (∀ g ∈ gs, Announced g) ∧ ∃ g ∈ gs, ∀ c : Char, g ≠ encode c := by
  have hchars : (is_utf8_chars ⟨s ++ [0], beyond⟩ 0).value = true ↔
      ∃ cs : List Char, (∀ c ∈ cs, c.toNat ≠ 0xFFFE) ∧ s = cs.flatMap encode :=
    is_utf8_chars_value_iff [] s beyond hnul
  rw [Bool.eq_iff_iff, hchars, is_utf8_str_iff]
  constructor
  · rintro h ⟨gs, rfl, hgs, g, hg, hother⟩
    obtain ⟨cs, -, hcs⟩ := h.1 ⟨gs, rfl, hgs⟩
    have hsame : gs = cs.map encode := by
      apply announced_unique hgs
      · intro g hg
        obtain ⟨c, -, rfl⟩ := List.mem_map.1 hg
        exact announced_encode c
      · rw [hcs, List.flatMap_def]
    obtain ⟨c, -, hc⟩ := List.mem_map.1 (hsame ▸ hg)
    exact hother c hc.symm
  · intro h
    constructor
    · rintro ⟨gs, rfl, hgs⟩
      have hscalar : ∀ g ∈ gs, ∃ c : Char, encode c = g := by
        intro g hg
        by_contra hother
        exact h ⟨gs, rfl, hgs, g, hg, fun c hc => hother ⟨c, hc.symm⟩⟩
      obtain ⟨cs, rfl⟩ : gs ∈ Set.range (List.map encode) := Set.range_list_map encode ▸ hscalar
      refine ⟨cs, fun c hc hvalue => hnot ?_, List.flatMap_def.symm⟩
      rw [← toNat_FFFE hvalue]
      exact List.infix_of_mem_flatten (List.mem_map_of_mem hc)
    · rintro ⟨cs, -, rfl⟩
      refine ⟨cs.map encode, List.flatMap_def, ?_⟩
      intro g hg
      obtain ⟨c, -, rfl⟩ := List.mem_map.1 hg
      exact announced_encode c

theorem utf8_checks_agree_iff_letter :
    is_utf8_str [0xC3, 0xA9] = (is_utf8_chars ⟨[0xC3, 0xA9] ++ [0], []⟩ 0).value ↔
      ¬ ∃ gs : List Bytes, [0xC3, 0xA9] = gs.flatten ∧ (∀ g ∈ gs, Announced g) ∧ ∃ g ∈ gs, ∀ c : Char, g ≠ encode c :=
  utf8_checks_agree_iff [0xC3, 0xA9] [] (by decide) (by decide)

/-- A NUL in two bytes. -/
theorem utf8_checks_differ :
    ¬ ∀ s beyond : Bytes, 0 ∉ s → ¬ [0xEF, 0xBF, 0xBE] <:+: s →
      is_utf8_str s = (is_utf8_chars ⟨s ++ [0], beyond⟩ 0).value := by
  intro h
  have hsame := h [0xC0, 0x80] [] (by decide) (by decide)
  have hstr : is_utf8_str [0xC0, 0x80] = true := by decide
  rw [hstr] at hsame
  obtain ⟨cs, -, hcs⟩ := (is_utf8_chars_value_iff [] [0xC0, 0x80] [] (by decide)).1 hsame.symm
  cases cs with
  | nil => cases hcs
  | cons c cs =>
    obtain ⟨b, ts, hencode, hgroup, hvalue, hshortest⟩ := group_encode c
    rw [List.flatMap_cons, hencode] at hcs
    obtain ⟨rfl, htail⟩ := List.cons.inj hcs
    obtain ⟨x, rfl⟩ := List.length_eq_one_iff.1 (Option.some.inj hgroup.following).symm
    obtain ⟨rfl, -⟩ := List.cons.inj htail
    rw [← hvalue] at hshortest
    exact absurd hshortest.least (by decide)

end RtcClient
