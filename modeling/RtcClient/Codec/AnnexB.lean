import Mathlib.Data.List.Infix
import RtcClient.Codec.StartCode
/-!
# Annex-B byte streams

NAL units joined with start codes of three or four bytes, and what the search for
start codes finds in such a stream: the end of the NAL unit it starts in.
-/

namespace RtcClient

open Lib

/-- A NAL unit that may stand alone in an RTP packet and keeps its bytes in a stream. -/
structure IsNalu (n : Bytes) : Prop where
  type : ∃ h t, n = h :: t ∧ 1 ≤ h &&& 0x1f ∧ h &&& 0x1f ≤ 23
  noCode : ¬ [0, 0, 1] <:+: n
  last : n.getLast? ≠ some 0
  second : ∀ h t, n = h :: t → h = 0x41 ∨ h = 0x61 → t ≠ []

/-- A start code of four bytes, or of three. -/
def startCode (long : Bool) : Bytes := if long then [0, 0, 0, 1] else [0, 0, 1]

/-- NAL units, each behind its start code. -/
def annexB (units : List (Bool × Bytes)) : Bytes := units.flatMap (fun u => startCode u.1 ++ u.2)

@[simp] theorem annexB_nil : annexB [] = [] := rfl

@[simp] theorem annexB_cons (long : Bool) (n : Bytes) (us : List (Bool × Bytes)) :
    annexB ((long, n) :: us) = startCode long ++ (n ++ annexB us) := by
  simp [annexB]

theorem annexB_append (us vs : List (Bool × Bytes)) : annexB (us ++ vs) = annexB us ++ annexB vs := by
  simp [annexB]

theorem IsNalu.ne_nil {n : Bytes} (h : IsNalu n) : n ≠ [] := by
  obtain ⟨a, t, rfl, -⟩ := h.type
  simp

/-- What the splitter needs of a NAL unit to give it back. -/
structure Separable (n : Bytes) : Prop where
  ne_nil : n ≠ []
  noCode : ¬ [0, 0, 1] <:+: n
  last : n.getLast? ≠ some 0

theorem IsNalu.separable {n : Bytes} (h : IsNalu n) : Separable n := ⟨h.ne_nil, h.noCode, h.last⟩

/-- Bytes other than zero make no start code. -/
theorem isNalu_of_nonzero {h : UInt8} {t : Bytes} (hl : 1 ≤ h &&& 0x1f) (hu : h &&& 0x1f ≤ 23)
    (hz : ∀ x ∈ h :: t, x ≠ 0) (hs : h = 0x41 ∨ h = 0x61 → t ≠ []) : IsNalu (h :: t) where
  type := ⟨h, t, rfl, hl, hu⟩
  noCode := fun hc => hz 0 (hc.subset (by simp)) rfl
  last := fun he => hz 0 (List.mem_of_getLast? he) rfl
  second := by rintro _ _ ⟨⟩; exact hs

/-! ## Positions in a stream -/

theorem get_append_right (pre rest beyond : Bytes) (i : Nat) :
    Buffer.get ⟨pre ++ rest, beyond⟩ (pre.length + i) = Buffer.get ⟨rest, beyond⟩ i := by
  simp only [Buffer.get, List.append_assoc, List.getD_eq_getElem?_getD]
  rw [List.getElem?_append_right (Nat.le_add_right _ _), Nat.add_sub_cancel_left]

theorem startCodeAt_append (pre rest beyond : Bytes) (i : Nat) :
    StartCodeAt ⟨pre ++ rest, beyond⟩ (pre.length + i) ↔ StartCodeAt ⟨rest, beyond⟩ i := by
  simp only [StartCodeAt, Nat.add_assoc, get_append_right]

theorem get_append_left (n rest beyond : Bytes) {i : Nat} (h : i < n.length) :
    Buffer.get ⟨n ++ rest, beyond⟩ i = n[i] := by
  rw [Buffer.get_of_lt _ (by simp only [List.length_append]; omega)]
  exact List.getElem_append_left h

/-- Inside a NAL unit there is no start code, and none begins in its last two bytes. -/
theorem no_code_inside {n : Bytes} (hc : ¬ [0, 0, 1] <:+: n) (hl : n.getLast? ≠ some 0) (rest beyond : Bytes) {i : Nat}
    (hi : i < n.length) : ¬ StartCodeAt ⟨n ++ rest, beyond⟩ i := by
  rintro ⟨h0, h1, h2⟩
  have hlast : ∀ h : n.length - 1 < n.length, n[n.length - 1] ≠ 0 := by
    intro h he
    apply hl
    rw [List.getLast?_eq_getElem?, List.getElem?_eq_getElem h, he]
  rw [get_append_left n rest beyond hi] at h0
  by_cases hi1 : i + 1 < n.length
  · rw [get_append_left n rest beyond hi1] at h1
    by_cases hi2 : i + 2 < n.length
    · rw [get_append_left n rest beyond hi2] at h2
      apply hc
      refine ⟨n.take i, n.drop (i + 3), ?_⟩
      have e : n.drop i = [0, 0, 1] ++ n.drop (i + 3) := by
        rw [List.drop_eq_getElem_cons hi, List.drop_eq_getElem_cons hi1, List.drop_eq_getElem_cons hi2, h0, h1, h2]
        rfl
      rw [List.append_assoc, ← e, List.take_append_drop]
    · have e : i + 1 = n.length - 1 := by omega
      simp only [e] at h1
      exact hlast (by omega) h1
  · have e : i = n.length - 1 := by omega
    simp only [e] at h0
    exact hlast (by omega) h0

/-- A short code is found at its start, a long one a byte later. -/
theorem startCode_found (long : Bool) (rest beyond : Bytes) :
    StartCodeAt ⟨startCode long ++ rest, beyond⟩ ((startCode long).length - 3) := by
  cases long <;> exact ⟨rfl, rfl, rfl⟩

/-- A long code starts with one more zero byte. -/
theorem startCode_long (rest beyond : Bytes) :
    Buffer.get ⟨startCode true ++ rest, beyond⟩ 0 = 0 ∧ ¬ StartCodeAt ⟨startCode true ++ rest, beyond⟩ 0 := by
  refine ⟨rfl, ?_⟩
  rintro ⟨-, -, h⟩
  have : (0 : UInt8) = 1 := h
  exact absurd this (by decide)

theorem startCode_length (long : Bool) : (startCode long).length = if long then 4 else 3 := by cases long <;> rfl

/-! ## The search ends where the NAL unit ends -/

theorem FirstCode.unique {b : Buffer} {start stop r q : Nat} (h : FirstCode b start stop r) (hq : start ≤ q)
    (hstop : q + 3 < stop) (hc : StartCodeAt b q) (hn : ∀ p, start ≤ p → p < q → ¬ StartCodeAt b p) : r = q := by
  rcases h.found with rfl | ⟨h1, h2, h3⟩
  · exact absurd hc (h.none_before q hq (by omega) hstop)
  · rcases Nat.lt_trichotomy r q with hlt | rfl | hlt
    · exact absurd h3 (hn r h1 hlt)
    · rfl
    · exact absurd hc (h.none_before q hq hlt hstop)

/-- In `pre ++ n ++ stream`, the search that starts behind `pre` ends behind `n`. -/
theorem avc_find_start_code_eq (addr : Nat) {n : Bytes} (hc : ¬ [0, 0, 1] <:+: n) (hl : n.getLast? ≠ some 0)
    (pre beyond : Bytes) (us : List (Bool × Bytes)) (hus : ∀ u ∈ us, u.2 ≠ []) :
    avc_find_start_code ⟨pre ++ (n ++ annexB us), beyond⟩ addr pre.length (pre ++ (n ++ annexB us)).length =
      pre.length + n.length := by
  have hf := find_internal_first ⟨pre ++ (n ++ annexB us), beyond⟩ addr pre.length (pre ++ (n ++ annexB us)).length
  have hin : ∀ p, pre.length ≤ p → p < pre.length + n.length →
      ¬ StartCodeAt ⟨pre ++ (n ++ annexB us), beyond⟩ p := by
    intro p h1 h2
    obtain ⟨i, rfl⟩ := Nat.exists_eq_add_of_le h1
    rw [startCodeAt_append]
    exact no_code_inside hc hl _ _ (by omega)
  simp only [avc_find_start_code]
  generalize hr : AVCFindStartCodeInternal ⟨pre ++ (n ++ annexB us), beyond⟩ addr pre.length
    (pre ++ (n ++ annexB us)).length = r at hf ⊢
  cases us with
  | nil =>
    have hstop : r = (pre ++ (n ++ annexB [])).length := by
      rcases hf.found with h | ⟨h1, h2, h3⟩
      · exact h
      · simp only [annexB_nil, List.append_nil, List.length_append] at h2
        exact absurd h3 (hin r h1 (by omega))
    rw [if_neg (by omega), hstop]
    simp
  | cons u us =>
    obtain ⟨long, m⟩ := u
    have hm : m ≠ [] := hus (long, m) (by simp)
    have hmpos := List.length_pos_iff.2 hm
    have hlen := startCode_length long
    rw [annexB_cons] at hf hin hr ⊢
    have hcode : StartCodeAt ⟨pre ++ (n ++ (startCode long ++ (m ++ annexB us))), beyond⟩
        (pre.length + (n.length + ((startCode long).length - 3))) := by
      rw [startCodeAt_append, startCodeAt_append]
      exact startCode_found long _ _
    have hq := hf.unique (by omega) (by simp only [List.length_append]; split at hlen <;> omega) hcode (by
      intro p h1 h2
      by_cases hp : p < pre.length + n.length
      · exact hin p h1 hp
      · cases long with
        | false => simp [startCode] at h2; omega
        | true =>
          obtain rfl : p = pre.length + (n.length + 0) := by simp [startCode] at h2; omega
          rw [startCodeAt_append, startCodeAt_append]
          exact (startCode_long _ _).2)
    subst hq
    cases long with
    | true =>
      -- The byte before the code is its first zero byte.
      have h0 : Buffer.get ⟨pre ++ (n ++ (startCode true ++ (m ++ annexB us))), beyond⟩
          (pre.length + (n.length + 0)) = 0 := by
        rw [get_append_right, get_append_right]
        exact (startCode_long _ _).1
      rw [if_pos]
      · simp only [startCode_length, if_true]; omega
      · refine ⟨by simp only [startCode_length, if_true]; omega, by simp only [List.length_append]; omega, ?_⟩
        have e : pre.length + (n.length + ((startCode true).length - 3)) - 1 = pre.length + (n.length + 0) := by
          simp only [startCode_length, if_true]; omega
        rw [e, h0]
    | false =>
      have e : pre.length + (n.length + ((startCode false).length - 3)) = pre.length + n.length := by
        simp only [startCode_length]; simp
      rw [e, if_neg]
      rintro ⟨h1, -, h3⟩
      -- The byte before the code is the last of `n`.
      have e' : pre.length + n.length - 1 = pre.length + (n.length - 1) := by omega
      rw [e', get_append_right, get_append_left n _ _ (by omega)] at h3
      apply hl
      rw [List.getLast?_eq_getElem?, List.getElem?_eq_getElem (by omega), h3]

end RtcClient
