import Mathlib.Order.Bounds.Basic
import RtcClient.Codec.StartCode
import RtcClient.Lib.Reading
/-!
# What the search for start codes reads

The search again, with the offsets it reads in the order of the source. It finds the
first start code (`find_internal_first`) and reads nothing outside the range it searches.
-/

namespace RtcClient

open Lib

namespace Reading

open Lib.Reading

/-- `start[0] == 0 && start[1] == 0 && start[2] == 1`. -/
def start_code_at (b : Buffer) (start : Nat) : Reading Bool :=
  both (equals b start 0) (both (equals b (start + 1) 0) (equals b (start + 2) 1))

def find_bytes (b : Buffer) (start stop : Nat) : Reading Nat :=
  if start + 3 < stop then do
    if ← start_code_at b start then return start else find_bytes b (start + 1) stop
  else return stop
termination_by stop - start

/-- `*(const uint32_t *)start`. -/
def word (b : Buffer) (start : Nat) : Reading (BitVec 32) := ⟨RtcClient.word b start, List.range' start 4⟩

/-- The checks of one round over a word: the position of the start code that begins in it. -/
def find_in_word (b : Buffer) (start : Nat) : Reading (Option Nat) :=
  orElse
    (guarded (equals b (start + 1) 0)
      (orElse
        (found (both (equals b start 0) (equals b (start + 2) 1)) start)
        (found (both (equals b (start + 2) 0) (equals b (start + 3) 1)) (start + 1))))
    (guarded (equals b (start + 3) 0)
      (orElse
        (found (both (equals b (start + 2) 0) (equals b (start + 4) 1)) (start + 2))
        (found (both (equals b (start + 4) 0) (equals b (start + 5) 1)) (start + 3))))

def find_words (b : Buffer) (start stop : Nat) : Reading Nat :=
  if start + 6 < stop then
    let x := word b start
    x.after
      (if (x.value - 0x01010101) &&& ~~~x.value &&& 0x80808080 ≠ 0 then
        (find_in_word b start).getD (find_words b (start + 4) stop)
      else find_words b (start + 4) stop)
  else find_bytes b start stop
termination_by stop - start

def find_aligned (b : Buffer) (a start stop : Nat) : Reading Nat :=
  if start < a ∧ start + 3 < stop then do
    if ← start_code_at b start then return start else find_aligned b a (start + 1) stop
  else find_words b start stop
termination_by stop - start

def AVCFindStartCodeInternal (b : Buffer) (addr start stop : Nat) : Reading Nat :=
  find_aligned b (start + 4 - (addr + start) % 4) start stop

def avc_find_start_code (b : Buffer) (addr start stop : Nat) : Reading Nat := do
  let pos ← AVCFindStartCodeInternal b addr start stop
  if start < pos ∧ pos < stop then
    if ← equals b (pos - 1) 0 then return pos - 1 else return pos
  else return pos

/-! ## The result does not depend on the reads kept -/

@[simp] theorem value_start_code_at (b : Buffer) (start : Nat) :
    (start_code_at b start).value = decide (StartCodeAt b start) := by
  simp only [start_code_at, value_both, value_equals, ← Bool.decide_and]
  rfl

theorem value_find_bytes (b : Buffer) (start stop : Nat) :
    (find_bytes b start stop).value = RtcClient.find_bytes b start stop := by
  fun_induction RtcClient.find_bytes b start stop with
  | case1 start h hc =>
    unfold find_bytes
    simp [h, hc]
  | case2 start h hc ih =>
    unfold find_bytes
    simp [h, hc, ih]
  | case3 start h =>
    unfold find_bytes
    simp [h]

theorem value_word (b : Buffer) (start : Nat) : (word b start).value = RtcClient.word b start := by rw [word]

/-- The checks of a round, without the nesting. -/
theorem value_find_in_word (b : Buffer) (start : Nat) :
    (find_in_word b start).value =
      if b.get (start + 1) = 0 ∧ b.get start = 0 ∧ b.get (start + 2) = 1 then some start
      else if b.get (start + 1) = 0 ∧ b.get (start + 2) = 0 ∧ b.get (start + 3) = 1 then some (start + 1)
      else if b.get (start + 3) = 0 ∧ b.get (start + 2) = 0 ∧ b.get (start + 4) = 1 then some (start + 2)
      else if b.get (start + 3) = 0 ∧ b.get (start + 4) = 0 ∧ b.get (start + 5) = 1 then some (start + 3)
      else none := by
  rw [find_in_word, value_orElse]
  simp only [value_guarded, value_orElse_found, value_found, value_both, value_equals, Bool.and_eq_true,
    decide_eq_true_eq]
  by_cases h1 : b.get (start + 1) = 0
  · simp only [h1, if_true, true_and]
    split_ifs <;> simp_all
  · simp only [h1, if_false, false_and, if_true]
    split_ifs <;> simp_all

/-- One round of the loop over words, if the word may hold a zero byte. -/
theorem value_find_words_checked {b : Buffer} {start stop : Nat} (h : start + 6 < stop)
    (ht : (RtcClient.word b start - 0x01010101) &&& ~~~RtcClient.word b start &&& 0x80808080 ≠ 0) :
    (find_words b start stop).value = (find_in_word b start).value.getD (find_words b (start + 4) stop).value := by
  rw [find_words, if_pos h, value_after, value_word, if_pos ht, value_getD]

theorem value_find_words_passed {b : Buffer} {start stop : Nat} (h : start + 6 < stop)
    (ht : ¬ (RtcClient.word b start - 0x01010101) &&& ~~~RtcClient.word b start &&& 0x80808080 ≠ 0) :
    (find_words b start stop).value = (find_words b (start + 4) stop).value := by
  rw [find_words, if_pos h, value_after, value_word, if_neg ht]

theorem value_find_words (b : Buffer) (start stop : Nat) :
    (find_words b start stop).value = RtcClient.find_words b start stop := by
  fun_induction RtcClient.find_words b start stop with
  | case1 start h x ht h0 => rw [value_find_words_checked h ht, value_find_in_word, if_pos h0, Option.getD_some]
  | case2 start h x ht h0 h1 =>
    rw [value_find_words_checked h ht, value_find_in_word, if_neg h0, if_pos h1, Option.getD_some]
  | case3 start h x ht h0 h1 h2 =>
    rw [value_find_words_checked h ht, value_find_in_word, if_neg h0, if_neg h1, if_pos h2, Option.getD_some]
  | case4 start h x ht h0 h1 h2 h3 =>
    rw [value_find_words_checked h ht, value_find_in_word, if_neg h0, if_neg h1, if_neg h2, if_pos h3,
      Option.getD_some]
  | case5 start h x ht h0 h1 h2 h3 ih =>
    rw [value_find_words_checked h ht, value_find_in_word, if_neg h0, if_neg h1, if_neg h2, if_neg h3,
      Option.getD_none, ih]
  | case6 start h x ht ih => rw [value_find_words_passed h ht, ih]
  | case7 start h => rw [find_words, if_neg h, value_find_bytes]

theorem value_find_aligned (b : Buffer) (a start stop : Nat) :
    (find_aligned b a start stop).value = RtcClient.find_aligned b a start stop := by
  fun_induction RtcClient.find_aligned b a start stop with
  | case1 start h hc =>
    unfold find_aligned
    simp [h, hc]
  | case2 start h hc ih =>
    unfold find_aligned
    simp [h, hc, ih]
  | case3 start h =>
    unfold find_aligned
    rw [value_ite, if_neg h, value_find_words]

@[simp] theorem value_AVCFindStartCodeInternal (b : Buffer) (addr start stop : Nat) :
    (AVCFindStartCodeInternal b addr start stop).value = RtcClient.AVCFindStartCodeInternal b addr start stop :=
  value_find_aligned _ _ _ _

@[simp] theorem value_avc_find_start_code (b : Buffer) (addr start stop : Nat) :
    (avc_find_start_code b addr start stop).value = RtcClient.avc_find_start_code b addr start stop := by
  simp only [avc_find_start_code, RtcClient.avc_find_start_code, value_bind, value_ite, value_pure,
    value_AVCFindStartCodeInternal, value_equals, decide_eq_true_eq]
  split_ifs <;> simp_all

/-! ## All reads are in the range searched -/

theorem within_start_code_at {b : Buffer} {start lo hi : Nat} (hlo : lo ≤ start) (hhi : start + 3 ≤ hi) :
    Within lo hi (start_code_at b start) :=
  .both (.equals (by omega)) (.both (.equals (by omega)) (.equals (by omega)))

theorem within_find_bytes (b : Buffer) (start stop : Nat) : Within start stop (find_bytes b start stop) := by
  fun_induction RtcClient.find_bytes b start stop with
  | case1 start h hc =>
    unfold find_bytes
    rw [if_pos h]
    apply (within_start_code_at (Nat.le_refl _) (by omega)).bind
    simp only [value_start_code_at, hc, decide_true, if_true]
    exact .pure _
  | case2 start h hc ih =>
    unfold find_bytes
    rw [if_pos h]
    apply (within_start_code_at (Nat.le_refl _) (by omega)).bind
    simp only [value_start_code_at, hc, decide_false, Bool.false_eq_true, if_false]
    exact ih.mono (by omega) (Nat.le_refl _)
  | case3 start h =>
    unfold find_bytes
    rw [if_neg h]
    exact .pure _

/-- A round looks at the two bytes behind its word. -/
theorem within_find_in_word (b : Buffer) (start : Nat) : Within start (start + 6) (find_in_word b start) := by
  apply Within.orElse
  · apply Within.guarded (.equals (by omega))
    apply Within.orElse
    · exact .found (.both (.equals (by omega)) (.equals (by omega)))
    · exact .found (.both (.equals (by omega)) (.equals (by omega)))
  · apply Within.guarded (.equals (by omega))
    apply Within.orElse
    · exact .found (.both (.equals (by omega)) (.equals (by omega)))
    · exact .found (.both (.equals (by omega)) (.equals (by omega)))

theorem within_word (b : Buffer) (start : Nat) : Within start (start + 4) (word b start) := by
  intro i hi
  exact List.mem_range'_1.1 hi

theorem within_find_words (b : Buffer) (start stop : Nat) : Within start stop (find_words b start stop) := by
  fun_induction find_words b start stop with
  | case1 start h x ih =>
    have hword : Within start stop (word b start) := (within_word b start).mono (Nat.le_refl _) (by omega)
    have hround : Within start stop (find_in_word b start) :=
      (within_find_in_word b start).mono (Nat.le_refl _) (by omega)
    have hrest : Within start stop (find_words b (start + 4) stop) := ih.mono (by omega) (Nat.le_refl _)
    exact hword.after (.ite (fun _ => hround.getD hrest) (fun _ => hrest))
  | case2 start h => exact within_find_bytes b start stop

theorem within_find_aligned (b : Buffer) (a start stop : Nat) : Within start stop (find_aligned b a start stop) := by
  fun_induction find_aligned b a start stop with
  | case1 start h ih =>
    apply (within_start_code_at (Nat.le_refl _) (by omega)).bind
    apply Within.ite
    · intro _
      exact .pure _
    · intro _
      exact ih.mono (by omega) (Nat.le_refl _)
  | case2 start h => exact within_find_words b start stop

theorem within_AVCFindStartCodeInternal (b : Buffer) (addr start stop : Nat) :
    Within start stop (AVCFindStartCodeInternal b addr start stop) := within_find_aligned _ _ _ _

theorem within_avc_find_start_code (b : Buffer) (addr start stop : Nat) :
    Within start stop (avc_find_start_code b addr start stop) := by
  apply (within_AVCFindStartCodeInternal b addr start stop).bind
  apply Within.ite
  · intro h
    apply (Within.equals (by omega)).bind
    exact .ite (fun _ => .pure _) (fun _ => .pure _)
  · intro _
    exact .pure _

end Reading

/-! ## The plain search -/

/-- A first start code is the least position of one. -/
theorem FirstCode.isLeast {b : Buffer} {start stop r : Nat} (h : FirstCode b start stop r) :
    IsLeast {p | start ≤ p ∧ p + 3 < stop ∧ StartCodeAt b p} r ∨
      (∀ p, start ≤ p → p + 3 < stop → ¬ StartCodeAt b p) ∧ r = stop := by
  rcases h.found with rfl | hfound
  · right
    refine ⟨fun p h1 h2 => h.none_before p h1 (by omega) h2, rfl⟩
  · left
    refine ⟨hfound, ?_⟩
    rintro p ⟨h1, h2, h3⟩
    by_contra hlt
    exact h.none_before p h1 (by omega) h2 h3

/-- The search goes word by word at any alignment, and finds what a search byte by byte
would find, looking at no byte outside the range. -/
theorem search_is_plain (b : Buffer) (addr start stop : Nat) :
    let search := Reading.AVCFindStartCodeInternal b addr start stop
    let search_back := Reading.avc_find_start_code b addr start stop
    (IsLeast {p | start ≤ p ∧ p + 3 < stop ∧ StartCodeAt b p} search.value ∨
        (∀ p, start ≤ p → p + 3 < stop → ¬ StartCodeAt b p) ∧ search.value = stop) ∧
      (∀ i ∈ search.reads, start ≤ i ∧ i < stop) ∧
      search_back.value =
        (if start < search.value ∧ search.value < stop ∧ b.get (search.value - 1) = 0 then search.value - 1
        else search.value) ∧
      ∀ i ∈ search_back.reads, start ≤ i ∧ i < stop := by
  intro search search_back
  have hvalue : search.value = AVCFindStartCodeInternal b addr start stop :=
    Reading.value_AVCFindStartCodeInternal b addr start stop
  refine ⟨?_, Reading.within_AVCFindStartCodeInternal b addr start stop, ?_,
    Reading.within_avc_find_start_code b addr start stop⟩
  · rw [hvalue]
    exact (find_internal_first b addr start stop).isLeast
  · rw [hvalue]
    exact Reading.value_avc_find_start_code b addr start stop

end RtcClient
