import RtcClient.Lib.Bytes
/-!
# Finding start codes

`avc_find_start_code` looks for the bytes 00 00 01. It goes byte by byte up to an
aligned address and then word by word. Positions are offsets into a buffer whose
first byte is at address `addr`. All three loops find the first start code that
has a byte behind it: `FirstCode`.
-/

namespace RtcClient

open Lib

/-- The bytes at `p` are a start code. -/
def StartCodeAt (b : Buffer) (p : Nat) : Prop := b.get p = 0 ∧ b.get (p + 1) = 0 ∧ b.get (p + 2) = 1

instance (b : Buffer) (p : Nat) : Decidable (StartCodeAt b p) := inferInstanceAs (Decidable (_ ∧ _ ∧ _))

/-- The 32-bit word at `p`, lowest byte first. -/
def word (b : Buffer) (p : Nat) : BitVec 32 :=
  BitVec.ofNat 32 ((b.get p).toNat + (b.get (p + 1)).toNat * 2 ^ 8 + (b.get (p + 2)).toNat * 2 ^ 16 +
    (b.get (p + 3)).toNat * 2 ^ 24)

/-- The last loop of `AVCFindStartCodeInternal`. -/
def find_bytes (b : Buffer) (start stop : Nat) : Nat :=
  if start + 3 < stop then
    if StartCodeAt b start then start else find_bytes b (start + 1) stop
  else stop
termination_by stop - start

/-- The loop over words. -/
def find_words (b : Buffer) (start stop : Nat) : Nat :=
  if start + 6 < stop then
    let x := word b start
    if (x - 0x01010101) &&& ~~~x &&& 0x80808080 ≠ 0 then
      if b.get (start + 1) = 0 ∧ b.get start = 0 ∧ b.get (start + 2) = 1 then start
      else if b.get (start + 1) = 0 ∧ b.get (start + 2) = 0 ∧ b.get (start + 3) = 1 then start + 1
      else if b.get (start + 3) = 0 ∧ b.get (start + 2) = 0 ∧ b.get (start + 4) = 1 then start + 2
      else if b.get (start + 3) = 0 ∧ b.get (start + 4) = 0 ∧ b.get (start + 5) = 1 then start + 3
      else find_words b (start + 4) stop
    else find_words b (start + 4) stop
  else find_bytes b start stop
termination_by stop - start

/-- The first loop: up to the aligned position `a`. -/
def find_aligned (b : Buffer) (a start stop : Nat) : Nat :=
  if start < a ∧ start + 3 < stop then
    if StartCodeAt b start then start else find_aligned b a (start + 1) stop
  else find_words b start stop
termination_by stop - start

def AVCFindStartCodeInternal (b : Buffer) (addr start stop : Nat) : Nat :=
  find_aligned b (start + 4 - (addr + start) % 4) start stop

/-- The zero byte of a four-byte start code belongs to it. -/
def avc_find_start_code (b : Buffer) (addr start stop : Nat) : Nat :=
  let pos := AVCFindStartCodeInternal b addr start stop
  if start < pos ∧ pos < stop ∧ b.get (pos - 1) = 0 then pos - 1 else pos

/-! ## The first start code -/

/-- `r` is the first start code from `start` on that has a byte behind it, or `stop`. -/
structure FirstCode (b : Buffer) (start stop r : Nat) : Prop where
  none_before : ∀ p, start ≤ p → p < r → p + 3 < stop → ¬ StartCodeAt b p
  found : r = stop ∨ start ≤ r ∧ r + 3 < stop ∧ StartCodeAt b r

/-- A search that starts at a start code ends there. -/
theorem FirstCode.here {b : Buffer} {start stop : Nat} (h : start + 3 < stop) (hc : StartCodeAt b start) :
    FirstCode b start stop start :=
  ⟨fun p h1 h2 => by omega, .inr ⟨Nat.le_refl _, h, hc⟩⟩

/-- A search may skip what is no start code. -/
theorem FirstCode.skip {b : Buffer} {start k stop r : Nat} (hr : FirstCode b (start + k) stop r)
    (h : ∀ i < k, ¬ StartCodeAt b (start + i)) : FirstCode b start stop r := by
  refine ⟨fun p h1 h2 h3 hc => ?_, ?_⟩
  · by_cases hp : start + k ≤ p
    · exact hr.none_before p hp h2 h3 hc
    · have e : start + (p - start) = p := by omega
      exact h (p - start) (by omega) (by rwa [e])
  · rcases hr.found with h | ⟨h1, h2, h3⟩
    · exact .inl h
    · exact .inr ⟨by omega, h2, h3⟩

theorem find_bytes_first (b : Buffer) (start stop : Nat) : FirstCode b start stop (find_bytes b start stop) := by
  fun_induction find_bytes b start stop with
  | case1 start h hc => exact .here h hc
  | case2 start h hc ih => exact ih.skip (fun i hi => by rwa [Nat.lt_one_iff.1 hi])
  | case3 start h => exact ⟨fun p h1 h2 h3 => by omega, .inl rfl⟩

/-- The word test sees a bit that the subtraction sets and the word does not have. -/
theorem word_test {x : BitVec 32} {i : Nat} (h1 : (2 ^ 32 - 0x01010101 + x.toNat) % 2 ^ 32 / 2 ^ i % 2 = 1)
    (h2 : x.toNat / 2 ^ i % 2 = 0) (h3 : (0x80808080 : BitVec 32).getLsbD i = true) :
    (x - 0x01010101) &&& ~~~x &&& 0x80808080 ≠ 0 := by
  intro h
  have hi : i < 32 := BitVec.lt_of_getLsbD h3
  have hb := congrArg (BitVec.getLsbD · i) h
  have e1 : (x - 0x01010101).getLsbD i = true := by
    rw [BitVec.getLsbD, BitVec.toNat_sub, Nat.testBit_eq_decide_div_mod_eq]
    simpa using h1
  have e2 : x.getLsbD i = false := by
    rw [BitVec.getLsbD, Nat.testBit_eq_decide_div_mod_eq]
    simpa using h2
  simp only [BitVec.getLsbD_and, BitVec.getLsbD_not, e1, e2, h3, hi, decide_true, Bool.not_false, Bool.and_self] at hb
  exact absurd hb (by simp)

/-- A word with a zero byte passes the test: below its lowest zero byte the
subtraction borrows nothing, so that byte becomes 0xFF. -/
theorem word_test_zero (b : Buffer) (p : Nat)
    (h : b.get p = 0 ∨ b.get (p + 1) = 0 ∨ b.get (p + 2) = 0 ∨ b.get (p + 3) = 0) :
    (word b p - 0x01010101) &&& ~~~(word b p) &&& 0x80808080 ≠ 0 := by
  have h0 := (b.get p).toNat_lt
  have h1 := (b.get (p + 1)).toNat_lt
  have h2 := (b.get (p + 2)).toNat_lt
  have h3 := (b.get (p + 3)).toNat_lt
  have hx : (word b p).toNat = (b.get p).toNat + (b.get (p + 1)).toNat * 2 ^ 8 + (b.get (p + 2)).toNat * 2 ^ 16 +
      (b.get (p + 3)).toNat * 2 ^ 24 := by
    rw [word, BitVec.toNat_ofNat]
    omega
  simp only [← UInt8.toNat_inj, UInt8.toNat_zero] at h
  by_cases z0 : (b.get p).toNat = 0
  · exact word_test (i := 7) (by omega) (by omega) (by decide)
  by_cases z1 : (b.get (p + 1)).toNat = 0
  · exact word_test (i := 15) (by omega) (by omega) (by decide)
  by_cases z2 : (b.get (p + 2)).toNat = 0
  · exact word_test (i := 23) (by omega) (by omega) (by decide)
  · exact word_test (i := 31) (by omega) (by omega) (by decide)

/-- A word without a zero byte holds no start code. -/
theorem no_code_word {b : Buffer} {p : Nat}
    (h : ¬ (b.get p = 0 ∨ b.get (p + 1) = 0 ∨ b.get (p + 2) = 0 ∨ b.get (p + 3) = 0)) :
    ∀ i < 4, ¬ StartCodeAt b (p + i) := by
  rintro i hi ⟨hz, -⟩
  apply h
  rcases (by omega : i = 0 ∨ i = 1 ∨ i = 2 ∨ i = 3) with rfl | rfl | rfl | rfl
  · exact .inl hz
  · exact .inr (.inl hz)
  · exact .inr (.inr (.inl hz))
  · exact .inr (.inr (.inr hz))

theorem find_words_first (b : Buffer) (start stop : Nat) : FirstCode b start stop (find_words b start stop) := by
  fun_induction find_words b start stop with
  | case1 start h x _ h0 => exact .here (by omega) ⟨h0.2.1, h0.1, h0.2.2⟩
  | case2 start h x _ h0 h1 =>
    refine (FirstCode.here (by omega) h1).skip (k := 1) ?_
    rintro i hi ⟨c0, c1, c2⟩
    obtain rfl := Nat.lt_one_iff.1 hi
    exact h0 ⟨c1, c0, c2⟩
  | case3 start h x _ h0 h1 h2 =>
    refine (FirstCode.here (by omega) ⟨h2.2.1, h2.1, h2.2.2⟩).skip (k := 2) ?_
    rintro i hi ⟨c0, c1, c2⟩
    rcases (by omega : i = 0 ∨ i = 1) with rfl | rfl
    · exact h0 ⟨c1, c0, c2⟩
    · exact h1 ⟨c0, c1, c2⟩
  | case4 start h x _ h0 h1 h2 h3 =>
    refine (FirstCode.here (by omega) h3).skip (k := 3) ?_
    rintro i hi ⟨c0, c1, c2⟩
    rcases (by omega : i = 0 ∨ i = 1 ∨ i = 2) with rfl | rfl | rfl
    · exact h0 ⟨c1, c0, c2⟩
    · exact h1 ⟨c0, c1, c2⟩
    · exact h2 ⟨c1, c0, c2⟩
  | case5 start h x _ h0 h1 h2 h3 ih =>
    refine ih.skip ?_
    rintro i hi ⟨c0, c1, c2⟩
    rcases (by omega : i = 0 ∨ i = 1 ∨ i = 2 ∨ i = 3) with rfl | rfl | rfl | rfl
    · exact h0 ⟨c1, c0, c2⟩
    · exact h1 ⟨c0, c1, c2⟩
    · exact h2 ⟨c1, c0, c2⟩
    · exact h3 ⟨c0, c1, c2⟩
  | case6 start h x ht ih => exact ih.skip (no_code_word (fun hz => ht (word_test_zero b start hz)))
  | case7 start h => exact find_bytes_first b start stop

theorem find_aligned_first (b : Buffer) (a start stop : Nat) :
    FirstCode b start stop (find_aligned b a start stop) := by
  fun_induction find_aligned b a start stop with
  | case1 start h hc => exact .here h.2 hc
  | case2 start h hc ih => exact ih.skip (fun i hi => by rwa [Nat.lt_one_iff.1 hi])
  | case3 start h => exact find_words_first b start stop

/-- The search finds the first start code, whatever the alignment. -/
theorem find_internal_first (b : Buffer) (addr start stop : Nat) :
    FirstCode b start stop (AVCFindStartCodeInternal b addr start stop) := find_aligned_first _ _ _ _

/-- The search does not go back. -/
theorem lt_avc_find_start_code (data : Buffer) (addr : Nat) {p start stop : Nat} (h1 : p < start) (h2 : p < stop) :
    p < avc_find_start_code data addr start stop := by
  have h := (find_internal_first data addr start stop).found
  simp only [avc_find_start_code]
  split <;> omega

/-- A start code begins at `r`: its last three bytes are at `c`, with a byte behind them. -/
structure CodeBegins (b : Buffer) (stop r c : Nat) : Prop where
  begins : c = r ∨ c = r + 1 ∧ b.get r = 0
  code : StartCodeAt b c
  behind : c + 3 < stop

/-- What the search returns: the beginning of a start code, or `stop`. -/
theorem avc_find_start_code_found (b : Buffer) (addr start stop : Nat) :
    avc_find_start_code b addr start stop = stop ∨
      start ≤ avc_find_start_code b addr start stop ∧
        ∃ c, CodeBegins b stop (avc_find_start_code b addr start stop) c := by
  have hf := (find_internal_first b addr start stop).found
  simp only [avc_find_start_code]
  generalize AVCFindStartCodeInternal b addr start stop = p at hf
  by_cases hback : start < p ∧ p < stop ∧ b.get (p - 1) = 0
  · rw [if_pos hback]
    rcases hf with h | ⟨-, h2, h3⟩
    · omega
    · have e : p = p - 1 + 1 := by omega
      exact .inr ⟨by omega, p, .inr ⟨e, hback.2.2⟩, h3, h2⟩
  · rw [if_neg hback]
    rcases hf with h | ⟨h1, h2, h3⟩
    · exact .inl h
    · exact .inr ⟨h1, p, .inl rfl, h3, h2⟩

end RtcClient
