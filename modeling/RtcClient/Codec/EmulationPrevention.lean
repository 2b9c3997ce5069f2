import RtcClient.Lib.Bytes
import Mathlib.Data.List.Infix
/-!
# Emulation prevention

`de_emulation_prevention` removes bytes in place: what follows is shifted down and the
last byte stays where it was. Indexes are `int`s and sizes are unsigned. `none` is an
access outside the buffer. What is left of the bytes is `strip`
(`de_emulation_prevention_eq`), which is compared with the standard's insertion
`emulate`.
-/

namespace RtcClient

open Lib

/-! ## The function -/

/-- `buf[i]`, inside the buffer. -/
def load_byte (buf : Bytes) (i : Int) : Option UInt8 := if 0 ≤ i then buf[i.toNat]? else none

/-- `buf[i] = x`, inside the buffer. -/
def store_byte (buf : Bytes) (i : Int) (x : UInt8) : Option Bytes :=
  if 0 ≤ i ∧ i.toNat < buf.length then some (buf.set i.toNat x) else none

/-- The loop over `j`: kick out a byte. -/
def kick_out (tmp_buf_size : Nat) (buf : Bytes) (j : Nat) : Option Bytes :=
  if j < size_sub tmp_buf_size 1 then do
    let x ← load_byte buf (int32 (j + 1 : Nat))
    let buf ← store_byte buf (int32 j) x
    kick_out tmp_buf_size buf (j + 1)
  else some buf
termination_by size_sub tmp_buf_size 1 - j

/-- The loop over `i`. When `i + 2` does not fit an `int` the read is outside the buffer, so `i` itself always does. -/
def check_loop (tmp_buf_size : Nat) (buf : Bytes) (buf_size i : Nat) : Option (Bytes × Nat) :=
  if i < size_sub tmp_buf_size 2 then do
    let x0 ← load_byte buf (int32 i)
    let x1 ← load_byte buf (int32 (i + 1 : Nat))
    let x2 ← load_byte buf (int32 (i + 2 : Nat))
    let val := (x0 ^^^ 0x00).toNat + (x1 ^^^ 0x00).toNat + (x2 ^^^ 0x03).toNat
    if val = 0 then do
      let buf ← kick_out tmp_buf_size buf (i + 2)
      check_loop tmp_buf_size buf (size_sub buf_size 1) (i + 1)
    else check_loop tmp_buf_size buf buf_size (i + 1)
  else some (buf, buf_size)
termination_by size_sub tmp_buf_size 2 - i

/-- The buffer and its size afterwards. -/
def de_emulation_prevention (buf : Bytes) (buf_size : Nat) : Option (Bytes × Nat) := check_loop buf_size buf buf_size 0

/-! ## The standard's insertion -/

/-- A 03 before any byte up to 03 that follows two zero bytes; `zeros` zero bytes came before. -/
def emulate (zeros : Nat) : Bytes → Bytes
  | [] => []
  | x :: r =>
    if 2 ≤ zeros ∧ x ≤ 3 then 3 :: x :: emulate (if x = 0 then 1 else 0) r
    else x :: emulate (if x = 0 then zeros + 1 else 0) r

/-! ## What is left of the bytes -/

/-- The byte behind a removed one is not checked as a third byte. -/
def strip : Bytes → Bytes
  | x0 :: x1 :: x2 :: rest =>
    if x0 = 0 ∧ x1 = 0 ∧ x2 = 3 then x0 :: strip (x1 :: rest) else x0 :: strip (x1 :: x2 :: rest)
  | w => w
termination_by w => w.length

theorem strip_kept {x0 x1 x2 : UInt8} {rest : Bytes} (h : ¬ (x0 = 0 ∧ x1 = 0 ∧ x2 = 3)) :
    strip (x0 :: x1 :: x2 :: rest) = x0 :: strip (x1 :: x2 :: rest) := by
  rw [strip, if_neg h]

theorem strip_removed (rest : Bytes) : strip (0 :: 0 :: 3 :: rest) = 0 :: strip (0 :: rest) := by
  rw [strip, if_pos ⟨rfl, rfl, rfl⟩]

/-! ## Inserting and removing -/

theorem emulate_inserted {x : UInt8} (hx : x ≤ 3) (r : Bytes) :
    emulate 2 (x :: r) = 3 :: x :: emulate (if x = 0 then 1 else 0) r := by
  rw [emulate, if_pos ⟨Nat.le_refl _, hx⟩]

theorem emulate_plain {zeros : Nat} {x : UInt8} (h : ¬ (2 ≤ zeros ∧ x ≤ 3)) (r : Bytes) :
    emulate zeros (x :: r) = x :: emulate (if x = 0 then zeros + 1 else 0) r := by
  rw [emulate, if_neg h]

/-- Of the bytes `x0`, `x1` the last `zeros` are 00. -/
def Ends (x0 x1 : UInt8) (zeros : Nat) : Prop := zeros = if x1 = 0 then (if x0 = 0 then 2 else 1) else 0

/-- A byte not inserted moves the count along. -/
theorem Ends.next {x0 x1 x : UInt8} {zeros : Nat} (h : Ends x0 x1 zeros) (hx : ¬ (2 ≤ zeros ∧ x ≤ 3)) :
    Ends x1 x (if x = 0 then zeros + 1 else 0) := by
  unfold Ends at h ⊢
  by_cases hz : x = 0
  · subst hz
    have hle : (0 : UInt8) ≤ 3 := by decide
    split_ifs at h ⊢ <;> simp_all
  · rw [if_neg hz, if_neg hz]

theorem Ends.nonzero (x0 : UInt8) {x1 : UInt8} (h : x1 ≠ 0) : Ends x0 x1 0 := by
  unfold Ends
  rw [if_neg h]

theorem Ends.zero (x : UInt8) : Ends 0 x (if x = 0 then 1 + 1 else 0) := by
  unfold Ends
  rw [if_pos rfl]

/-- Where two are counted both bytes are zero. The converse fails behind an inserted byte. -/
theorem two_zeros {x0 x1 : UInt8} (h : Ends x0 x1 2) : x0 = 0 ∧ x1 = 0 := by
  unfold Ends at h
  split_ifs at h with h1 h2
  · exact ⟨h2, h1⟩
  · omega

theorem Ends.le_two {x0 x1 : UInt8} {zeros : Nat} (h : Ends x0 x1 zeros) : zeros ≤ 2 := by
  unfold Ends at h
  split_ifs at h <;> omega

/-- What the removal makes of the next byte of the string: it undoes an insertion, or
it leaves the byte. -/
theorem strip_emulate_step {x0 x1 : UInt8} {zeros : Nat} (h : Ends x0 x1 zeros) (x : UInt8) (r : Bytes) :
    (x0 = 0 ∧ x1 = 0 ∧ emulate zeros (x :: r) = 3 :: x :: emulate (if x = 0 then 1 else 0) r ∧
        strip (x0 :: x1 :: emulate zeros (x :: r)) = 0 :: strip (0 :: x :: emulate (if x = 0 then 1 else 0) r)) ∨
      ∃ zeros', Ends x1 x zeros' ∧ emulate zeros (x :: r) = x :: emulate zeros' r ∧ ¬ (x0 = 0 ∧ x1 = 0 ∧ x = 3) ∧
        strip (x0 :: x1 :: emulate zeros (x :: r)) = x0 :: strip (x1 :: x :: emulate zeros' r) := by
  by_cases hx : 2 ≤ zeros ∧ x ≤ 3
  · left
    obtain rfl : zeros = 2 := Nat.le_antisymm h.le_two hx.1
    obtain ⟨rfl, rfl⟩ := two_zeros h
    rw [emulate_inserted hx.2, strip_removed]
    exact ⟨rfl, rfl, rfl, rfl⟩
  · right
    have hkept : ¬ (x0 = 0 ∧ x1 = 0 ∧ x = 3) := by
      rintro ⟨rfl, rfl, rfl⟩
      have hzeros : zeros = 2 := h
      exact hx ⟨by omega, by decide⟩
    refine ⟨_, h.next hx, emulate_plain hx r, hkept, ?_⟩
    rw [emulate_plain hx, strip_kept hkept]

/-- Never more bytes than there were, also where a 00 behind an inserted byte makes two
zero bytes that do not count. -/
theorem strip_emulate_length (r : Bytes) :
    (strip (0 :: emulate 0 r)).length ≤ r.length + 1 ∧
      (strip (0 :: 0 :: emulate 1 r)).length ≤ r.length + 2 ∧
      ∀ x0 x1 zeros, Ends x0 x1 zeros → (strip (x0 :: x1 :: emulate zeros r)).length ≤ r.length + 2 := by
  induction r with
  | nil => simp [emulate, strip]
  | cons x r ih =>
    obtain ⟨ih0, ih1, ih2⟩ := ih
    refine ⟨?_, ?_, ?_⟩
    · rw [emulate_plain (by omega)]
      by_cases hz : x = 0
      · subst hz
        exact ih1
      · rw [if_neg hz]
        exact ih2 0 x 0 (.nonzero 0 hz)
    · rw [emulate_plain (by omega)]
      by_cases hthree : x = 3
      · subst hthree
        rw [strip_removed, if_neg (by decide)]
        simp only [List.length_cons]
        omega
      · rw [strip_kept (fun h => hthree h.2.2)]
        exact Nat.succ_le_succ (ih2 0 x _ (.zero x))
    · intro x0 x1 zeros h
      rcases strip_emulate_step h x r with ⟨-, -, -, hstep⟩ | ⟨zeros', hends, -, -, hstep⟩
      · rw [hstep]
        by_cases hz : x = 0
        · subst hz
          exact Nat.succ_le_succ ih1
        · rw [if_neg hz]
          exact Nat.succ_le_succ (ih2 0 x 0 (.nonzero 0 hz))
      · rw [hstep]
        exact Nat.succ_le_succ (ih2 x1 x zeros' hends)

/-- The bytes after which the removal takes data for an inserted byte. -/
def clash : Bytes := [0, 0, 3, 0, 3]

theorem clash_short {w : Bytes} (h : w.length < 5) : ¬ clash <:+: w := by
  intro hclash
  have hlength := hclash.length_le
  rw [clash, List.length_cons, List.length_cons, List.length_cons, List.length_cons, List.length_singleton] at hlength
  omega

/-- No clash begins at bytes that are not 00 00 03. -/
theorem clash_skip {x0 x1 x2 : UInt8} (h : ¬ (x0 = 0 ∧ x1 = 0 ∧ x2 = 3)) (w : Bytes) :
    clash <:+: x0 :: x1 :: x2 :: w ↔ clash <:+: x1 :: x2 :: w := by
  rw [List.infix_cons_iff]
  refine ⟨?_, .inr⟩
  rintro (hbegins | hinfix)
  · simp only [clash, List.cons_prefix_cons] at hbegins
    exact absurd ⟨hbegins.1.symm, hbegins.2.1.symm, hbegins.2.2.1.symm⟩ h
  · exact hinfix

theorem clash_cons {x : UInt8} (h : x ≠ 0) (w : Bytes) : clash <:+: x :: w ↔ clash <:+: w := by
  rw [List.infix_cons_iff, clash, List.cons_prefix_cons]
  exact or_iff_right (fun hp => h hp.1.symm)

theorem clash_zero_cons {x : UInt8} (h : x ≠ 0) (w : Bytes) : clash <:+: 0 :: x :: w ↔ clash <:+: x :: w := by
  rw [List.infix_cons_iff, clash, List.cons_prefix_cons, List.cons_prefix_cons]
  exact or_iff_right (fun hp => h hp.2.1.symm)

/-- None begins at an inserted byte or before it, if data other than 00 03 follows. -/
theorem clash_inserted {x : UInt8} {w : Bytes} (h : ¬ (x = 0 ∧ w.head? = some 3)) :
    clash <:+: 0 :: 0 :: 3 :: x :: w ↔ clash <:+: x :: w := by
  rw [List.infix_cons_iff, clash_zero_cons (by decide), clash_cons (by decide)]
  refine or_iff_right (fun hp => h ?_)
  obtain ⟨rest, hrest⟩ := hp
  simp only [clash, List.cons_append, List.cons.injEq, true_and] at hrest
  exact ⟨hrest.1.symm, by rw [← hrest.2]; rfl⟩

/-- Removing undoes inserting up to the first clash. -/
theorem strip_emulate_iff (r : Bytes) :
    (strip (0 :: 0 :: emulate 1 r) = 0 :: 0 :: r ↔ ¬ clash <:+: 0 :: 0 :: 3 :: 0 :: emulate 1 r) ∧
      ∀ x0 x1 zeros, Ends x0 x1 zeros →
        (strip (x0 :: x1 :: emulate zeros r) = x0 :: x1 :: r ↔ ¬ clash <:+: x0 :: x1 :: emulate zeros r) := by
  induction r with
  | nil =>
    refine ⟨?_, fun x0 x1 zeros _ => ?_⟩
    · simp [emulate, strip, clash_short (w := [0, 0, 3, 0]) (by decide)]
    · simp [emulate, strip, clash_short (w := [x0, x1]) (by simp)]
  | cons x r ih =>
    obtain ⟨ihlost, ih⟩ := ih
    refine ⟨?_, ?_⟩
    · rw [emulate_plain (by omega)]
      by_cases hthree : x = 3
      · subst hthree
        have hshort := (strip_emulate_length r).1
        have hbegins : clash <+: 0 :: 0 :: 3 :: 0 :: 3 :: emulate 0 r := ⟨emulate 0 r, rfl⟩
        rw [strip_removed, if_neg (by decide)]
        refine iff_of_false (fun heq => ?_) (fun hno => hno hbegins.isInfix)
        have hlength := congrArg List.length heq
        simp only [List.length_cons] at hlength
        omega
      · rw [strip_kept (fun h => hthree h.2.2), clash_inserted (fun h => hthree (by simpa using h.2)),
          List.cons_inj_right]
        exact ih 0 x _ (.zero x)
    · intro x0 x1 zeros h
      rcases strip_emulate_step h x r with ⟨rfl, rfl, hemulate, hstep⟩ | ⟨zeros', hends, hemulate, hkept, hstep⟩
      · rw [hstep, hemulate, List.cons_inj_right]
        by_cases hz : x = 0
        · subst hz
          exact ihlost
        · rw [if_neg hz, clash_inserted (fun h => hz h.1), ← clash_zero_cons hz]
          exact ih 0 x 0 (.nonzero 0 hz)
      · rw [hstep, hemulate, List.cons_inj_right, clash_skip hkept]
        exact ih x1 x zeros' hends

/-- The string comes back unless its encoding holds a clash. -/
theorem strip_emulate (r : Bytes) : strip (emulate 0 r) = r ↔ ¬ clash <:+: emulate 0 r := by
  match r with
  | [] => simp [emulate, strip, clash]
  | [x] =>
    rw [emulate_plain (by omega)]
    simpa [emulate, strip] using clash_short (w := [x]) (by simp)
  | x :: y :: r =>
    rw [emulate_plain (by omega), emulate_plain (by split <;> omega)]
    apply (strip_emulate_iff r).2
    have hnone : Ends 1 x (if x = 0 then 0 + 1 else 0) := by
      unfold Ends
      split_ifs <;> simp_all
    exact hnone.next (by split <;> omega)

/-! ## The first bytes of a string -/

theorem emulate_length_le (zeros : Nat) (r : Bytes) : r.length ≤ (emulate zeros r).length := by
  fun_induction emulate zeros r with
  | case1 => exact Nat.le_refl _
  | case2 zeros x r h ih => simp only [List.length_cons]; omega
  | case3 zeros x r h ih => simp only [List.length_cons]; omega

theorem emulate_prefix (zeros : Nat) (a b : Bytes) : emulate zeros a <+: emulate zeros (a ++ b) := by
  induction a generalizing zeros with
  | nil => exact List.nil_prefix
  | cons x a ih =>
    rw [List.cons_append, emulate, emulate]
    by_cases h : 2 ≤ zeros ∧ x ≤ 3
    · rw [if_pos h, if_pos h, List.cons_prefix_cons, List.cons_prefix_cons]
      exact ⟨rfl, rfl, ih _⟩
    · rw [if_neg h, if_neg h, List.cons_prefix_cons]
      exact ⟨rfl, ih _⟩

theorem strip_head (x : UInt8) (w : Bytes) : [x] <+: strip (x :: w) := by
  match w with
  | [] | [_] => simp [strip]
  | y :: z :: w =>
    rw [strip]
    split_ifs <;> exact List.cons_prefix_cons.2 ⟨rfl, List.nil_prefix⟩

/-- More bytes behind change nothing of what is left of the first ones. -/
theorem strip_prefix (w t : Bytes) : strip w <+: strip (w ++ t) := by
  fun_induction strip w with
  | case1 x0 x1 x2 rest h ih =>
    rw [List.cons_append, List.cons_append, List.cons_append, strip, if_pos h, List.cons_prefix_cons]
    exact ⟨rfl, ih⟩
  | case2 x0 x1 x2 rest h ih =>
    rw [List.cons_append, List.cons_append, List.cons_append, strip_kept h, List.cons_prefix_cons]
    exact ⟨rfl, ih⟩
  | case3 w h =>
    match w with
    | [] => exact List.nil_prefix
    | [x] => exact strip_head x t
    | [x, y] =>
      match t with
      | [] => simp [strip]
      | z :: t =>
        rw [List.cons_append, List.cons_append, List.nil_append, strip]
        split_ifs <;> exact List.cons_prefix_cons.2 ⟨rfl, strip_head y _⟩
    | x :: y :: z :: rest => exact (h x y z rest rfl).elim

/-- The first bytes come back unless the encoding of these holds a clash. -/
theorem strip_emulate_take {r : Bytes} {k : Nat} (h : ¬ clash <:+: emulate 0 (r.take k)) :
    r.take k <+: strip (emulate 0 r) := by
  obtain ⟨t, ht⟩ := emulate_prefix 0 (r.take k) (r.drop k)
  rw [List.take_append_drop] at ht
  have hstrip := strip_prefix (emulate 0 (r.take k)) t
  rwa [(strip_emulate _).2 h, ht] at hstrip

/-! ## Removing in place -/

theorem load_byte_eq (p : Bytes) (x : UInt8) (t : Bytes) (h : p.length < 2 ^ 31) :
    load_byte (p ++ x :: t) (int32 p.length) = some x := by
  rw [int32_of_lt h, load_byte, if_pos (Int.natCast_nonneg _), Int.toNat_natCast,
    List.getElem?_append_right (Nat.le_refl _), Nat.sub_self]
  rfl

theorem store_byte_eq (p : Bytes) (x y : UInt8) (t : Bytes) (h : p.length < 2 ^ 31) :
    store_byte (p ++ x :: t) (int32 p.length) y = some (p ++ y :: t) := by
  have hinside : p.length < (p ++ x :: t).length := by simp
  rw [int32_of_lt h, store_byte, Int.toNat_natCast, if_pos ⟨Int.natCast_nonneg _, hinside⟩,
    List.set_append_right _ _ (Nat.le_refl _), Nat.sub_self, List.set_cons_zero]

/-- The bytes behind the removed one move down, and the last one is there twice. -/
theorem kick_out_eq (t : Bytes) : ∀ (p : Bytes) (x : UInt8), (p ++ x :: t).length ≤ 2 ^ 31 →
    kick_out (p ++ x :: t).length (p ++ x :: t) p.length =
      some (p ++ t ++ [(x :: t).getLast (List.cons_ne_nil x t)]) := by
  induction t with
  | nil =>
    intro p x hlen
    have hsize : size_sub (p ++ [x]).length 1 = p.length := by
      rw [size_sub_eq (by simp)]
      simp
    rw [kick_out, hsize, if_neg (Nat.lt_irrefl _)]
    simp
  | cons y t ih =>
    intro p x hlen
    have hp : p.length + 1 < 2 ^ 31 := by
      simp only [List.length_append, List.length_cons] at hlen
      omega
    have hload : load_byte (p ++ x :: y :: t) (int32 (p.length + 1 : Nat)) = some y := by
      have := load_byte_eq (p ++ [x]) y t (by simpa using hp)
      simpa using this
    have hmore : p.length < size_sub (p ++ x :: y :: t).length 1 := by
      rw [size_sub_eq (by simp; omega)]
      simp
    have hrest := ih (p ++ [y]) y (by simpa using hlen)
    rw [kick_out, if_pos hmore, hload, Option.bind_eq_bind, Option.bind_some, store_byte_eq p x y _ (by omega),
      Option.bind_eq_bind, Option.bind_some]
    simpa using hrest

theorem check_sum (x0 x1 x2 : UInt8) :
    (x0 ^^^ 0x00).toNat + (x1 ^^^ 0x00).toNat + (x2 ^^^ 0x03).toNat = 0 ↔ x0 = 0 ∧ x1 = 0 ∧ x2 = 3 := by
  have hzero : ∀ x : UInt8, x.toNat = 0 ↔ x = 0 := fun x => UInt8.toNat_inj (b := 0)
  simp only [Nat.add_eq_zero_iff, hzero, UInt8.xor_zero, UInt8.xor_eq_zero_iff, and_assoc]

/-- One round of the loop. -/
theorem check_loop_round (p : Bytes) (x0 x1 x2 : UInt8) (t : Bytes) (buf_size : Nat)
    (hlen : (p ++ x0 :: x1 :: x2 :: t).length ≤ 2 ^ 31) :
    check_loop (p ++ x0 :: x1 :: x2 :: t).length (p ++ x0 :: x1 :: x2 :: t) buf_size p.length =
      if x0 = 0 ∧ x1 = 0 ∧ x2 = 3 then
        check_loop (p ++ x0 :: x1 :: x2 :: t).length
          (p ++ x0 :: x1 :: (t ++ [(x2 :: t).getLast (List.cons_ne_nil x2 t)]))
          (size_sub buf_size 1) (p.length + 1)
      else check_loop (p ++ x0 :: x1 :: x2 :: t).length (p ++ x0 :: x1 :: x2 :: t) buf_size (p.length + 1) := by
  have hp : p.length + 2 < 2 ^ 31 := by
    simp only [List.length_append, List.length_cons] at hlen
    omega
  have hmore : p.length < size_sub (p ++ x0 :: x1 :: x2 :: t).length 2 := by
    rw [size_sub_eq (by simp; omega)]
    simp only [List.length_append, List.length_cons]
    omega
  have hload0 := load_byte_eq p x0 (x1 :: x2 :: t) (by omega)
  have hload1 : load_byte (p ++ x0 :: x1 :: x2 :: t) (int32 (p.length + 1 : Nat)) = some x1 := by
    have := load_byte_eq (p ++ [x0]) x1 (x2 :: t) (by simp; omega)
    simpa using this
  have hload2 : load_byte (p ++ x0 :: x1 :: x2 :: t) (int32 (p.length + 2 : Nat)) = some x2 := by
    have := load_byte_eq (p ++ [x0, x1]) x2 t (by simpa using hp)
    simpa using this
  have hkick : kick_out (p ++ x0 :: x1 :: x2 :: t).length (p ++ x0 :: x1 :: x2 :: t) (p.length + 2) =
      some (p ++ x0 :: x1 :: (t ++ [(x2 :: t).getLast (List.cons_ne_nil x2 t)])) := by
    have := kick_out_eq t (p ++ [x0, x1]) x2 (by simpa using hlen)
    simpa using this
  rw [check_loop, if_pos hmore, hload0, Option.bind_eq_bind, Option.bind_some, hload1, Option.bind_eq_bind,
    Option.bind_some, hload2, Option.bind_some]
  by_cases h : x0 = 0 ∧ x1 = 0 ∧ x2 = 3
  · rw [if_pos ((check_sum x0 x1 x2).2 h), if_pos h, hkick, Option.bind_some]
  · rw [if_neg (fun hsum => h ((check_sum x0 x1 x2).1 hsum)), if_neg h]

/-- With two bytes left, or one, the loop has ended. -/
theorem check_loop_end (p v : Bytes) (buf_size : Nat) (hlen : 2 ≤ (p ++ v).length) (hv : v.length ≤ 2) :
    check_loop (p ++ v).length (p ++ v) buf_size p.length = some (p ++ v, buf_size) := by
  rw [check_loop, size_sub_eq hlen, if_neg (by rw [List.length_append]; omega)]

/-- Where no 00 00 03 is left the loop changes nothing. -/
theorem check_loop_clean (v : Bytes) : ∀ (p : Bytes) (buf_size : Nat), 2 ≤ (p ++ v).length → (p ++ v).length ≤ 2 ^ 31 →
    ¬ [0, 0, 3] <:+: v → check_loop (p ++ v).length (p ++ v) buf_size p.length = some (p ++ v, buf_size) := by
  induction v with
  | nil =>
    intro p buf_size hlen _ _
    exact check_loop_end p [] buf_size hlen (by simp)
  | cons x0 v ih =>
    intro p buf_size hlen hmax hclean
    match v with
    | [] => exact check_loop_end p [x0] buf_size hlen (by simp)
    | [x1] => exact check_loop_end p [x0, x1] buf_size hlen (by simp)
    | x1 :: x2 :: t =>
      have hkept : ¬ (x0 = 0 ∧ x1 = 0 ∧ x2 = 3) := by
        rintro ⟨rfl, rfl, rfl⟩
        exact hclean ⟨[], t, rfl⟩
      have hrest := ih (p ++ [x0]) buf_size (by simpa using hlen) (by simpa using hmax)
        (fun h => hclean (h.trans (List.suffix_cons x0 _).isInfix))
      rw [check_loop_round p x0 x1 x2 t buf_size hmax, if_neg hkept]
      simpa using hrest

/-- Copies of one byte hold no 00 00 03, also behind another byte. -/
theorem clean_replicate (y c : UInt8) (m : Nat) : ¬ [0, 0, 3] <:+: y :: List.replicate m c := by
  have hno : ∀ l : Bytes, l <:+: List.replicate m c → 0 ∈ l → 3 ∈ l → False := by
    intro l hl h0 h3
    have e0 := List.eq_of_mem_replicate (hl.subset h0)
    have e3 := List.eq_of_mem_replicate (hl.subset h3)
    exact absurd (e0.trans e3.symm) (by decide)
  rw [List.infix_cons_iff, List.cons_prefix_cons]
  rintro (⟨-, hbegins⟩ | hinfix)
  · exact hno [0, 3] hbegins.isInfix (by simp) (by simp)
  · exact hno [0, 0, 3] hinfix (by simp) (by simp)

/-- What the loop copies to the end is the byte that was last. -/
theorem last_copied {x : UInt8} {w : Bytes} {k : Nat} {c : UInt8} (h : (x :: w).getLast? = some c) :
    (x :: (w ++ List.replicate k c)).getLast (List.cons_ne_nil x _) = c := by
  have hlast : (x :: (w ++ List.replicate k c)).getLast? = some c := by
    cases k with
    | zero => simpa using h
    | succ k => rw [List.replicate_succ', ← List.append_assoc, ← List.cons_append, List.getLast?_concat]
  exact (List.getLast_eq_iff_getLast?_eq_some (List.cons_ne_nil x _)).2 hlast

/-- The loop with the bytes `w` not yet seen and `k` copies of `c` behind them. -/
def check_rest (p w : Bytes) (k : Nat) (c : UInt8) : Option (Bytes × Nat) :=
  check_loop (p ++ w ++ List.replicate k c).length (p ++ w ++ List.replicate k c) (p ++ w).length p.length

/-- A removal leaves one more copy of the last byte. -/
theorem check_rest_removed {p rest : Bytes} {x0 x1 x2 : UInt8} {k : Nat} {c : UInt8}
    (hmax : (p ++ x0 :: x1 :: x2 :: rest ++ List.replicate k c).length ≤ 2 ^ 31) (h : x0 = 0 ∧ x1 = 0 ∧ x2 = 3)
    (hlast : (x2 :: rest).getLast? = some c) :
    check_rest p (x0 :: x1 :: x2 :: rest) k c = check_rest (p ++ [x0]) (x1 :: rest) (k + 1) c := by
  have hround := check_loop_round p x0 x1 x2 (rest ++ List.replicate k c) (p ++ x0 :: x1 :: x2 :: rest).length
    (by simpa using hmax)
  rw [if_pos h, last_copied hlast] at hround
  have hmoved : p ++ [x0] ++ x1 :: rest ++ List.replicate (k + 1) c =
      p ++ x0 :: x1 :: (rest ++ List.replicate k c ++ [c]) := by
    simp [List.replicate_succ']
  have hlength : (p ++ x0 :: x1 :: (rest ++ List.replicate k c ++ [c])).length =
      (p ++ x0 :: x1 :: x2 :: (rest ++ List.replicate k c)).length := by
    simp only [List.length_append, List.length_cons, List.length_nil]
  have hsize : size_sub (p ++ x0 :: x1 :: x2 :: rest).length 1 = (p ++ [x0] ++ x1 :: rest).length := by
    rw [size_sub_eq (by simp; omega)]
    simp
  have hnext : (p ++ [x0]).length = p.length + 1 := List.length_append
  rw [check_rest, check_rest, hmoved, hlength, ← hsize, hnext, List.append_assoc p]
  exact hround

theorem check_rest_kept {p rest : Bytes} {x0 x1 x2 : UInt8} {k : Nat} {c : UInt8}
    (hmax : (p ++ x0 :: x1 :: x2 :: rest ++ List.replicate k c).length ≤ 2 ^ 31) (h : ¬ (x0 = 0 ∧ x1 = 0 ∧ x2 = 3)) :
    check_rest p (x0 :: x1 :: x2 :: rest) k c = check_rest (p ++ [x0]) (x1 :: x2 :: rest) k c := by
  have hround := check_loop_round p x0 x1 x2 (rest ++ List.replicate k c) (p ++ x0 :: x1 :: x2 :: rest).length
    (by simpa using hmax)
  rw [if_neg h] at hround
  have hmoved : p ++ [x0] ++ x1 :: x2 :: rest = p ++ x0 :: x1 :: x2 :: rest := List.append_assoc p [x0] _
  have hnext : (p ++ [x0]).length = p.length + 1 := List.length_append
  rw [check_rest, check_rest, hmoved, hnext, List.append_assoc p]
  exact hround

/-- The loop strips the bytes it has not yet seen. -/
theorem check_rest_strip (w : Bytes) : ∀ (p : Bytes) (k : Nat) (c : UInt8),
    2 ≤ (p ++ w ++ List.replicate k c).length → (p ++ w ++ List.replicate k c).length ≤ 2 ^ 31 →
    w ≠ [] → (w.getLast? = some c ∨ w.length = 1) →
    ∃ k', check_rest p w k c = some (p ++ strip w ++ List.replicate k' c, (p ++ strip w).length) := by
  fun_induction strip w with
  | case1 x0 x1 x2 rest h ih =>
    intro p k c hlen hmax _ hlast
    have hlast' : (x2 :: rest).getLast? = some c := by
      rcases hlast with hlast | hlast
      · simpa using hlast
      · simp at hlast
    have hone : (x1 :: rest).getLast? = some c ∨ (x1 :: rest).length = 1 := by
      cases rest with
      | nil => exact .inr rfl
      | cons y rest => exact .inl (by simpa using hlast')
    obtain ⟨k', hk'⟩ := ih (p ++ [x0]) (k + 1) c (by simp; omega) (by simp at hmax ⊢; omega) (by simp) hone
    refine ⟨k', ?_⟩
    rw [check_rest_removed hmax h hlast', hk']
    simp
  | case2 x0 x1 x2 rest h ih =>
    intro p k c hlen hmax _ hlast
    have hlast' : (x1 :: x2 :: rest).getLast? = some c ∨ (x1 :: x2 :: rest).length = 1 := by
      rcases hlast with hlast | hlast
      · exact .inl (by simpa using hlast)
      · simp at hlast
    obtain ⟨k', hk'⟩ := ih (p ++ [x0]) k c (by simp; omega) (by simp at hmax ⊢; omega) (by simp) hlast'
    refine ⟨k', ?_⟩
    rw [check_rest_kept hmax h, hk']
    simp
  | case3 w h =>
    intro p k c hlen hmax hne hlast
    refine ⟨k, ?_⟩
    have hclean : ¬ [0, 0, 3] <:+: w ++ List.replicate k c := by
      match w, hne, hlast with
      | [x], _, _ => exact clean_replicate x c k
      | [x, y], _, hlast =>
        obtain rfl : y = c := by simpa using hlast
        exact clean_replicate x y (k + 1)
      | x :: y :: z :: rest, _, _ => exact (h x y z rest rfl).elim
    have hrest := check_loop_clean (w ++ List.replicate k c) p (p ++ w).length (by simpa using hlen)
      (by simpa using hmax) hclean
    rwa [← List.append_assoc] at hrest

/-- From two bytes on, up to 2 GiB, the first bytes of the buffer are the stripped ones. -/
theorem de_emulation_prevention_eq (e : Bytes) (hlen : 2 ≤ e.length) (hmax : e.length ≤ 2 ^ 31) :
    ∃ buf, de_emulation_prevention e e.length = some (buf, (strip e).length) ∧ buf.take (strip e).length = strip e := by
  have hne : e ≠ [] := by
    rintro rfl
    simp at hlen
  obtain ⟨k', hk'⟩ := check_rest_strip e [] 0 (e.getLast hne) (by simpa using hlen) (by simpa using hmax) hne
    (.inl (List.getLast?_eq_some_getLast hne))
  simp only [check_rest, List.nil_append, List.replicate_zero, List.append_nil, List.length_nil] at hk'
  exact ⟨strip e ++ List.replicate k' (e.getLast hne), hk', List.take_left⟩

/-! ## Sizes that do not fit -/

/-- An unsigned size of less than two has no size two less. -/
theorem de_emulation_prevention_small {buf : Bytes} (h : buf.length < 2) :
    de_emulation_prevention buf buf.length = none := by
  match buf, h with
  | [], _ =>
    have hload : load_byte [] (int32 (0 : Nat)) = none := rfl
    rw [de_emulation_prevention, check_loop, if_pos (by decide), hload, Option.bind_eq_bind, Option.bind_none]
  | [x], _ =>
    have hload0 : load_byte [x] (int32 (0 : Nat)) = some x := rfl
    have hload1 : load_byte [x] (int32 (0 + 1 : Nat)) = none := rfl
    have hmore : 0 < size_sub [x].length 2 := by rw [List.length_singleton]; decide
    rw [de_emulation_prevention, check_loop, if_pos hmore, hload0, Option.bind_eq_bind, Option.bind_some, hload1,
      Option.bind_eq_bind, Option.bind_none]

theorem store_byte_length {buf buf' : Bytes} {i : Int} {x : UInt8} (h : store_byte buf i x = some buf') :
    buf'.length = buf.length := by
  unfold store_byte at h
  split at h
  · rw [← Option.some.inj h, List.length_set]
  · cases h

theorem kick_out_length (N : Nat) (buf : Bytes) (j : Nat) :
    ∀ buf', kick_out N buf j = some buf' → buf'.length = buf.length := by
  fun_induction kick_out N buf j with
  | case1 buf j h ih =>
    intro buf' hkick
    obtain ⟨x, -, hkick⟩ := Option.bind_eq_some_iff.1 hkick
    obtain ⟨stored, hstored, hkick⟩ := Option.bind_eq_some_iff.1 hkick
    rw [ih stored buf' hkick, store_byte_length hstored]
  | case2 buf j h =>
    intro buf' hkick
    rw [← Option.some.inj hkick]

/-- Above 2 GiB the sum `i + 2` wraps in the end, if the loop gets that far. -/
theorem check_loop_large (N k : Nat) (hN : 2 ^ 31 < N) :
    ∀ (buf : Bytes) (buf_size i : Nat), buf.length = N → i + k = 2 ^ 31 - 2 → check_loop N buf buf_size i = none := by
  induction k with
  | zero =>
    intro buf buf_size i hlen hi
    have hmore : i < size_sub N 2 := by rw [size_sub_eq (by omega)]; omega
    have hload : load_byte buf (int32 (i + 2 : Nat)) = none := by
      rw [show i + 2 = 2 ^ 31 by omega, load_byte, if_neg (by decide)]
    rw [check_loop, if_pos hmore, Option.bind_eq_bind, Option.bind_eq_none_iff]
    intro x0 _
    rw [Option.bind_eq_bind, Option.bind_eq_none_iff]
    intro x1 _
    rw [hload, Option.bind_none]
  | succ k ih =>
    intro buf buf_size i hlen hi
    have hmore : i < size_sub N 2 := by rw [size_sub_eq (by omega)]; omega
    rw [check_loop, if_pos hmore, Option.bind_eq_bind, Option.bind_eq_none_iff]
    intro x0 _
    rw [Option.bind_eq_bind, Option.bind_eq_none_iff]
    intro x1 _
    rw [Option.bind_eq_none_iff]
    intro x2 _
    dsimp only
    split
    · rw [Option.bind_eq_none_iff]
      intro buf' hkick
      exact ih buf' _ (i + 1) ((kick_out_length N buf (i + 2) buf' hkick).trans hlen) (by omega)
    · exact ih buf buf_size (i + 1) hlen (by omega)

theorem de_emulation_prevention_large {buf : Bytes} (h : 2 ^ 31 < buf.length) :
    de_emulation_prevention buf buf.length = none :=
  check_loop_large buf.length (2 ^ 31 - 2) h buf buf.length 0 rfl (Nat.zero_add _)

/-- All accesses are inside the buffer just for these sizes. -/
theorem de_emulation_prevention_isSome (buf : Bytes) :
    (de_emulation_prevention buf buf.length).isSome ↔ 2 ≤ buf.length ∧ buf.length ≤ 2 ^ 31 := by
  by_cases hlen : 2 ≤ buf.length
  · by_cases hmax : buf.length ≤ 2 ^ 31
    · obtain ⟨buf', h, -⟩ := de_emulation_prevention_eq buf hlen hmax
      rw [h]
      exact iff_of_true rfl ⟨hlen, hmax⟩
    · rw [de_emulation_prevention_large (Nat.not_le.1 hmax)]
      exact iff_of_false Bool.false_ne_true (fun h => hmax h.2)
  · rw [de_emulation_prevention_small (Nat.not_le.1 hlen)]
    exact iff_of_false Bool.false_ne_true (fun h => hlen h.1)

/-- What was inserted is removed again, for these sizes and where no data 03 follows an
inserted byte and one 00. -/
theorem emulation_prevention_undone_iff (r data : Bytes) :
    ((∃ buf, de_emulation_prevention (emulate 0 r) (emulate 0 r).length = some (buf, r.length) ∧
          buf.take r.length = r) ↔
        2 ≤ (emulate 0 r).length ∧ (emulate 0 r).length ≤ 2 ^ 31 ∧ ¬ [0, 0, 3, 0, 3] <:+: emulate 0 r) ∧
      ((de_emulation_prevention data data.length).isSome ↔ 2 ≤ data.length ∧ data.length ≤ 2 ^ 31) := by
  refine ⟨?_, de_emulation_prevention_isSome data⟩
  constructor
  · rintro ⟨buf, hrun, htake⟩
    obtain ⟨hlen, hmax⟩ := (de_emulation_prevention_isSome (emulate 0 r)).1 (by rw [hrun]; rfl)
    obtain ⟨buf', hrun', htake'⟩ := de_emulation_prevention_eq (emulate 0 r) hlen hmax
    obtain ⟨rfl, hsize⟩ := Prod.mk.inj (Option.some.inj (hrun.symm.trans hrun'))
    rw [← hsize, htake] at htake'
    exact ⟨hlen, hmax, (strip_emulate r).1 htake'.symm⟩
  · rintro ⟨hlen, hmax, hclash⟩
    obtain ⟨buf, hrun, htake⟩ := de_emulation_prevention_eq (emulate 0 r) hlen hmax
    rw [(strip_emulate r).2 hclash] at hrun htake
    exact ⟨buf, hrun, htake⟩

/-- 00 00 00 03 does not come back, and a buffer of one byte is read past its end. -/
theorem emulation_prevention_lost :
    (¬ ∃ buf, de_emulation_prevention (emulate 0 [0, 0, 0, 3]) (emulate 0 [0, 0, 0, 3]).length = some (buf, 4) ∧
        buf.take 4 = [0, 0, 0, 3]) ∧
      de_emulation_prevention [0x67] 1 = none := by
  refine ⟨?_, de_emulation_prevention_small (by decide)⟩
  rintro ⟨buf, hrun, htake⟩
  have he : emulate 0 [0, 0, 0, 3] = [0, 0, 3, 0, 3] := by decide
  obtain ⟨buf', hrun', -⟩ := de_emulation_prevention_eq [0, 0, 3, 0, 3] (by decide) (by decide)
  rw [he, hrun'] at hrun
  have hsize := congrArg Prod.snd (Option.some.inj hrun)
  simp [strip] at hsize

end RtcClient
