import RtcClient.Common.JsonText
import RtcClient.Lib.Marked
/-!
# Escaping, backslashes included

A text is its characters with the backslashes before each. Every pass of `escape_string`
and `unescape_string` works on one such unit at a time, so what the eight passes do
together is a case distinction on a unit. `unescape_string` takes the second of two
backslashes and a letter behind it for an escape sequence.
-/

namespace RtcClient.JsonObject

open Lib Lib.Marked

/-! ## Passes -/

section
variable {us : List (Nat × UInt8)} {t : Nat}

theorem replace_loop_backslashes {search replacement : Bytes} {k : Nat} {rest : Bytes}
    (h : ∀ j, ¬ search <+: List.replicate (j + 1) backslash ++ rest) :
    replace_loop search replacement (List.replicate k backslash ++ rest) =
      List.replicate k backslash ++ replace_loop search replacement rest := by
  induction k with
  | zero => rfl
  | succ k ih =>
    have hk := h k
    rw [List.replicate_succ, List.cons_append] at hk ⊢
    rw [replace_loop_skip hk, ih, List.cons_append]

/-- A pass that works unit by unit. -/
theorem string_replace_units {search replacement : Bytes} (hne : search ≠ replacement) (hne' : search ≠ [])
    (f : Nat × UInt8 → Nat × UInt8) (g : Nat → Nat)
    (hunit : ∀ k x rest, x ≠ backslash → replace_loop search replacement (List.replicate k backslash ++ x :: rest) =
      List.replicate (f (k, x)).1 backslash ++ (f (k, x)).2 :: replace_loop search replacement rest)
    (hend : ∀ k, replace_loop search replacement (List.replicate k backslash) = List.replicate (g k) backslash)
    (h : Unmarked backslash us) :
    string_replace (render backslash us t) search replacement = render backslash (us.map f) (g t) := by
  rw [string_replace_loop hne hne']
  induction us with
  | nil => exact hend t
  | cons u us ih => rw [render_cons, hunit _ _ _ (h u (by simp)), ih h.tail, List.map_cons, render_cons]

/-- A pass of `escape_string` for a character other than the backslash. -/
def escape_unit (c e : UInt8) (u : Nat × UInt8) : Nat × UInt8 := if u.2 = c then (u.1 + 1, e) else u

theorem escape_pass {c e : UInt8} (hc : c ≠ backslash) (h : Unmarked backslash us) :
    string_replace (render backslash us t) [c] [backslash, e] = render backslash (us.map (escape_unit c e)) t := by
  have hskip : ∀ k rest, replace_loop [c] [backslash, e] (List.replicate k backslash ++ rest) =
      List.replicate k backslash ++ replace_loop [c] [backslash, e] rest :=
    fun k rest => replace_loop_backslashes fun j => by simp [List.replicate_succ, hc]
  refine string_replace_units (by simp) (by simp) _ id ?_ ?_ h
  · intro k x rest _
    rw [hskip, escape_unit]
    dsimp only
    by_cases hx : x = c
    · subst hx
      rw [if_pos rfl, show x :: rest = [x] ++ rest from rfl, replace_loop_found, List.replicate_succ']
      simp
    · rw [if_neg hx, replace_loop_skip (by simp [Ne.symm hx])]
  · intro k
    have := hskip k []
    rwa [List.append_nil, replace_loop_nil, List.append_nil] at this

/-- A pass of `unescape_string` for a character other than the backslash. -/
def unescape_unit (e c : UInt8) (u : Nat × UInt8) : Nat × UInt8 := if 0 < u.1 ∧ u.2 = e then (u.1 - 1, c) else u

theorem unescape_pass {e c : UInt8} (he : e ≠ backslash) (h : Unmarked backslash us) :
    string_replace (render backslash us t) [backslash, e] [c] = render backslash (us.map (unescape_unit e c)) t := by
  -- a backslash before another one is passed
  have hskip : ∀ k rest, replace_loop [backslash, e] [c] (List.replicate k backslash ++ backslash :: rest) =
      List.replicate k backslash ++ replace_loop [backslash, e] [c] (backslash :: rest) := by
    intro k rest
    refine replace_loop_backslashes fun j hp => ?_
    cases j <;> simp [List.replicate_succ, he] at hp
  refine string_replace_units (by simp) (by simp) _ id ?_ ?_ h
  · intro k x rest hx
    have hplain : replace_loop [backslash, e] [c] (x :: rest) = x :: replace_loop [backslash, e] [c] rest :=
      replace_loop_skip (by simp [hx.symm])
    unfold unescape_unit
    dsimp only
    cases k with
    | zero => simpa using hplain
    | succ k =>
      rw [List.replicate_succ', List.append_assoc, List.singleton_append, hskip, Nat.add_sub_cancel]
      by_cases hxe : x = e
      · subst hxe
        rw [if_pos ⟨Nat.succ_pos k, rfl⟩]
        exact congrArg _ replace_loop_found
      · rw [if_neg (fun hu => hxe hu.2), replace_loop_skip (by simp [Ne.symm hxe]), hplain, List.replicate_succ',
          List.append_assoc]
        rfl
  · intro k
    cases k with
    | zero => exact replace_loop_nil _ _
    | succ k =>
      have := hskip k []
      rw [replace_loop_skip (by simp), replace_loop_nil, ← List.replicate_succ'] at this
      exact this

/-- The first pass of `escape_string` doubles the backslashes. -/
theorem double_pass (h : Unmarked backslash us) :
    string_replace (render backslash us t) [backslash] [backslash, backslash] =
      render backslash (us.map fun u => (2 * u.1, u.2)) (2 * t) := by
  have hfound : ∀ rest, replace_loop [backslash] [backslash, backslash] (backslash :: rest) =
      backslash :: backslash :: replace_loop [backslash] [backslash, backslash] rest :=
    fun rest => replace_loop_found
  have hskip : ∀ k rest, replace_loop [backslash] [backslash, backslash] (List.replicate k backslash ++ rest) =
      List.replicate (2 * k) backslash ++ replace_loop [backslash] [backslash, backslash] rest := by
    intro k rest
    induction k with
    | zero => rfl
    | succ k ih =>
      rw [List.replicate_succ, List.cons_append, hfound, ih, Nat.mul_succ, List.replicate_succ, List.replicate_succ]
      rfl
  refine string_replace_units (by simp) (by simp) _ (2 * ·) ?_ ?_ h
  · intro k x rest hx
    rw [hskip, replace_loop_skip (by simp [hx.symm])]
  · intro k
    have := hskip k []
    rwa [List.append_nil, replace_loop_nil, List.append_nil] at this

/-- The last pass of `unescape_string` halves the backslashes; an odd one stays. -/
theorem halve_pass (h : Unmarked backslash us) :
    string_replace (render backslash us t) [backslash, backslash] [backslash] =
      render backslash (us.map fun u => (u.1 - u.1 / 2, u.2)) (t - t / 2) := by
  have hfound : ∀ rest, replace_loop [backslash, backslash] [backslash] (backslash :: backslash :: rest) =
      backslash :: replace_loop [backslash, backslash] [backslash] rest :=
    fun rest => replace_loop_found
  have hskip : ∀ k rest, rest.head? ≠ some backslash →
      replace_loop [backslash, backslash] [backslash] (List.replicate k backslash ++ rest) =
        List.replicate (k - k / 2) backslash ++ replace_loop [backslash, backslash] [backslash] rest := by
    intro k rest hrest
    induction k using Nat.twoStepInduction with
    | zero => rfl
    | one =>
      refine (replace_loop_skip fun hp => hrest ?_).trans rfl
      cases rest with
      | nil => simp at hp
      | cons c rest => simpa [eq_comm] using hp
    | more k ih _ =>
      rw [show k + 2 - (k + 2) / 2 = (k - k / 2) + 1 by omega, List.replicate_succ, List.replicate_succ,
        List.cons_append, List.cons_append, hfound, ih, List.replicate_succ]
      rfl
  refine string_replace_units (by simp) (by simp) _ (fun k => k - k / 2) ?_ ?_ h
  · intro k x rest hx
    rw [hskip k (x :: rest) (by simpa using hx), replace_loop_skip (by simp [hx.symm])]
  · intro k
    have := hskip k [] (by simp)
    rwa [List.append_nil, replace_loop_nil, List.append_nil] at this

/-! ## All passes -/

theorem escape_unit_unmarked {c e : UInt8} (he : e ≠ backslash) (u : Nat × UInt8) (hu : u.2 ≠ backslash) :
    (escape_unit c e u).2 ≠ backslash := by
  unfold escape_unit
  split
  · exact he
  · exact hu

theorem unescape_unit_unmarked {e c : UInt8} (hc : c ≠ backslash) (u : Nat × UInt8) (hu : u.2 ≠ backslash) :
    (unescape_unit e c u).2 ≠ backslash := by
  unfold unescape_unit
  split
  · exact hc
  · exact hu

/-- What `escape_string` makes of a unit. -/
def escape_all : Nat × UInt8 → Nat × UInt8 :=
  escape_unit 9 116 ∘ escape_unit 13 114 ∘ escape_unit 10 110 ∘ escape_unit 12 102 ∘ escape_unit 8 98 ∘
    escape_unit quote quote ∘ escape_unit slash slash ∘ fun u => (2 * u.1, u.2)

/-- What `unescape_string` makes of a unit. -/
def unescape_all : Nat × UInt8 → Nat × UInt8 :=
  (fun u => (u.1 - u.1 / 2, u.2)) ∘ unescape_unit 116 9 ∘ unescape_unit 114 13 ∘ unescape_unit 110 10 ∘
    unescape_unit 102 12 ∘ unescape_unit 98 8 ∘ unescape_unit quote quote ∘ unescape_unit slash slash

theorem escape_string_units (h : Unmarked backslash us) :
    escape_string (render backslash us t) = render backslash (us.map escape_all) (2 * t) := by
  have h0 : Unmarked backslash (us.map fun u => (2 * u.1, u.2)) := h.map fun u hu => hu
  have h1 := h0.map (escape_unit_unmarked (c := slash) (e := slash) (by decide))
  have h2 := h1.map (escape_unit_unmarked (c := quote) (e := quote) (by decide))
  have h3 := h2.map (escape_unit_unmarked (c := 8) (e := 98) (by decide))
  have h4 := h3.map (escape_unit_unmarked (c := 12) (e := 102) (by decide))
  have h5 := h4.map (escape_unit_unmarked (c := 10) (e := 110) (by decide))
  have h6 := h5.map (escape_unit_unmarked (c := 13) (e := 114) (by decide))
  unfold escape_string
  dsimp only
  rw [double_pass h, escape_pass (by decide) h0, escape_pass (by decide) h1, escape_pass (by decide) h2,
    escape_pass (by decide) h3, escape_pass (by decide) h4, escape_pass (by decide) h5, escape_pass (by decide) h6]
  simp only [List.map_map, escape_all]

theorem unescape_string_units (h : Unmarked backslash us) :
    unescape_string (render backslash us t) = render backslash (us.map unescape_all) (t - t / 2) := by
  have h1 := h.map (unescape_unit_unmarked (e := slash) (c := slash) (by decide))
  have h2 := h1.map (unescape_unit_unmarked (e := quote) (c := quote) (by decide))
  have h3 := h2.map (unescape_unit_unmarked (e := 98) (c := 8) (by decide))
  have h4 := h3.map (unescape_unit_unmarked (e := 102) (c := 12) (by decide))
  have h5 := h4.map (unescape_unit_unmarked (e := 110) (c := 10) (by decide))
  have h6 := h5.map (unescape_unit_unmarked (e := 114) (c := 13) (by decide))
  have h7 := h6.map (unescape_unit_unmarked (e := 116) (c := 9) (by decide))
  unfold unescape_string
  dsimp only
  rw [unescape_pass (by decide) h, unescape_pass (by decide) h1, unescape_pass (by decide) h2,
    unescape_pass (by decide) h3, unescape_pass (by decide) h4, unescape_pass (by decide) h5,
    unescape_pass (by decide) h6, halve_pass h7]
  simp only [List.map_map, unescape_all]

/-- The letters that stand for control characters in escape sequences, each with its character. -/
def letters : Escapes := [(8, 98), (12, 102), (10, 110), (13, 114), (9, 116)]

theorem escape_all_special (k : Nat) {p : UInt8 × UInt8} (hp : p ∈ escapes) :
    escape_all (k, p.1) = (2 * k + 1, p.2) := by
  have hall : ∀ p ∈ escapes, ∀ k, escape_all (k, p.1) = (2 * k + 1, p.2) := by
    simp [escapes, escape_all, escape_unit, quote, slash]
  exact hall p hp k

theorem escape_all_plain (k : Nat) {x : UInt8} (hx : ∀ p ∈ escapes, x ≠ p.1) : escape_all (k, x) = (2 * k, x) := by
  simp [escapes, quote, slash] at hx
  simp [escape_all, escape_unit, quote, slash, hx]

/-- The backslash before a letter is taken with it. -/
theorem unescape_all_found {k : Nat} (hk : 0 < k) {p : UInt8 × UInt8} (hp : p ∈ escapes) :
    unescape_all (k, p.2) = (k - 1 - (k - 1) / 2, p.1) := by
  have hall : ∀ p ∈ escapes, unescape_all (k, p.2) = (k - 1 - (k - 1) / 2, p.1) := by
    simp [escapes, unescape_all, unescape_unit, quote, slash, hk]
  exact hall p hp

theorem unescape_all_absent {k : Nat} {x : UInt8} (hx : ∀ p ∈ escapes, ¬ (0 < k ∧ x = p.2)) :
    unescape_all (k, x) = (k - k / 2, x) := by
  rcases Nat.eq_zero_or_pos k with rfl | hk
  · simp [unescape_all, unescape_unit]
  · simp only [escapes, List.forall_mem_cons, hk, true_and] at hx
    simp only [unescape_all, unescape_unit, Function.comp_apply, hx, and_false, if_false]

theorem escapes_cases : ∀ p ∈ escapes, p ∈ letters ∨ p.2 = quote ∨ p.2 = slash := all_escapes (by decide)

theorem letters_escapes : ∀ p ∈ letters, p ∈ escapes := all_escapes (by decide)

/-- A unit comes back unless it is a letter behind a backslash. -/
theorem unescape_escape_unit (u : Nat × UInt8) :
    unescape_all (escape_all u) = u ↔ ∀ p ∈ letters, ¬ (0 < u.1 ∧ u.2 = p.2) := by
  obtain ⟨k, x⟩ := u
  by_cases hspecial : ∃ p ∈ escapes, x = p.1
  · obtain ⟨p, hp, rfl⟩ := hspecial
    rw [escape_all_special k hp, unescape_all_found (Nat.succ_pos _) hp,
      show 2 * k + 1 - 1 - (2 * k + 1 - 1) / 2 = k by omega]
    have hno : ∀ p ∈ escapes, letters.all (fun q => decide (p.1 ≠ q.2)) = true := all_escapes (by decide)
    exact iff_of_true rfl fun q hq hu => (all_escapes (hno p hp)) q hq hu.2
  · have hplain : ∀ p ∈ escapes, x ≠ p.1 := fun p hp hx => hspecial ⟨p, hp, hx⟩
    rw [escape_all_plain k hplain]
    constructor
    · rintro h p hp ⟨hk, hx⟩
      dsimp only at hk hx
      subst hx
      rw [unescape_all_found (by omega) (letters_escapes p hp)] at h
      have hne : ∀ p ∈ letters, p.1 ≠ p.2 := all_escapes (by decide)
      exact hne p hp (congrArg Prod.snd h)
    · intro h
      rw [unescape_all_absent, show 2 * k - 2 * k / 2 = k by omega]
      rintro p hp ⟨hk, hx⟩
      rcases escapes_cases p hp with hletter | hquote | hslash
      · exact h p hletter ⟨by omega, hx⟩
      · exact hplain (quote, quote) (by decide) (hx.trans hquote)
      · exact hplain (slash, slash) (by decide) (hx.trans hslash)

theorem escape_all_unmarked (u : Nat × UInt8) (hu : u.2 ≠ backslash) : (escape_all u).2 ≠ backslash := by
  obtain ⟨k, x⟩ := u
  by_cases hspecial : ∃ p ∈ escapes, x = p.1
  · obtain ⟨p, hp, rfl⟩ := hspecial
    have hnot : ∀ p ∈ escapes, p.2 ≠ backslash := all_escapes (by decide)
    rw [escape_all_special k hp]
    exact hnot p hp
  · rw [escape_all_plain k fun p hp hx => hspecial ⟨p, hp, hx⟩]
    exact hu

theorem unescape_all_unmarked (u : Nat × UInt8) (hu : u.2 ≠ backslash) : (unescape_all u).2 ≠ backslash := by
  apply unescape_unit_unmarked (e := 116) (c := 9) (by decide)
  apply unescape_unit_unmarked (by decide)
  apply unescape_unit_unmarked (by decide)
  apply unescape_unit_unmarked (by decide)
  apply unescape_unit_unmarked (by decide)
  apply unescape_unit_unmarked (by decide)
  apply unescape_unit_unmarked (by decide)
  exact hu

end

/-- Unescaping undoes escaping for the texts without a backslash directly before one of the letters, and for no
others. -/
theorem unescape_escape_iff (s : Bytes) :
    unescape_string (escape_string s) = s ↔ ∀ p ∈ letters, ¬ [backslash, p.2] <:+: s := by
  obtain ⟨us, t, hus, rfl⟩ := exists_render backslash s
  have hnot : ∀ p ∈ letters, p.2 ≠ backslash := all_escapes (by decide)
  rw [escape_string_units hus, unescape_string_units (hus.map escape_all_unmarked), List.map_map,
    show 2 * t - 2 * t / 2 = t by omega,
    render_map_eq (f := unescape_all ∘ escape_all) (fun u hu => unescape_all_unmarked _ (escape_all_unmarked u hu)) hus]
  simp only [Function.comp_apply, unescape_escape_unit]
  constructor
  · intro h p hp hi
    obtain ⟨u, hu, hpair⟩ := (pair_infix_render (hnot p hp) hus).1 hi
    exact h u hu p hp hpair
  · intro h u hu p hp hpair
    exact h p hp ((pair_infix_render (hnot p hp) hus).2 ⟨u, hu, hpair⟩)

/-- The two characters of the text `\n` come back as a backslash and a line feed. -/
theorem unescape_escape_letter : unescape_string (escape_string (ascii "\\n")) = [backslash, 10] ∧
    unescape_string (escape_string (ascii "\\n")) ≠ ascii "\\n" := by
  decide +kernel

/-! ## Lengths -/

theorem unescape_all_count (u : Nat × UInt8) :
    (unescape_all u).1 + 1 ≤ u.1 + 1 ∧ u.1 + 1 ≤ 2 * ((unescape_all u).1 + 1) := by
  obtain ⟨k, x⟩ := u
  by_cases h : ∃ p ∈ escapes, 0 < k ∧ x = p.2
  · obtain ⟨p, hp, hk, rfl⟩ := h
    rw [unescape_all_found hk hp]
    dsimp only
    omega
  · rw [unescape_all_absent fun p hp hx => h ⟨p, hp, hx⟩]
    dsimp only
    omega

/-- A text is unescaped to one of at least half its length. -/
theorem length_unescape (s : Bytes) :
    (unescape_string s).length ≤ s.length ∧ s.length ≤ 2 * (unescape_string s).length := by
  obtain ⟨us, t, hus, rfl⟩ := exists_render backslash s
  rw [unescape_string_units hus, length_render, length_render, List.map_map]
  have hsum : (us.map ((fun u => u.1 + 1) ∘ unescape_all)).sum ≤ (us.map (fun u => u.1 + 1)).sum ∧
      (us.map (fun u => u.1 + 1)).sum ≤ 2 * (us.map ((fun u => u.1 + 1) ∘ unescape_all)).sum := by
    clear hus
    induction us with
    | nil => simp
    | cons u us ih =>
      have hu := unescape_all_count u
      simp only [List.map_cons, List.sum_cons, Function.comp_apply] at ih ⊢
      omega
  omega

/-! ## The end of a written string -/

theorem hidden_backslashes {k : Nat} {c : UInt8} {rest : Bytes}
    (h : Hidden ((if k = 0 then c else backslash) :: rest)) : Hidden (c :: (List.replicate k backslash ++ rest)) := by
  induction k generalizing c with
  | zero => exact h
  | succ k ih =>
    rw [List.replicate_succ, List.cons_append]
    refine List.isChain_cons_cons.2 ⟨fun hq => absurd hq (by decide), ih ?_⟩
    rwa [ite_self]

theorem hidden_units {us : List (Nat × UInt8)} {t : Nat} (h : ∀ u ∈ us, u.2 = quote → 0 < u.1) (c : UInt8) :
    Hidden (c :: render backslash us t) := by
  induction us generalizing c with
  | nil =>
    rw [render_nil, ← List.append_nil (List.replicate t backslash)]
    exact hidden_backslashes (List.IsChain.singleton _)
  | cons u us ih =>
    rw [render_cons]
    refine hidden_backslashes (List.isChain_cons_cons.2 ⟨fun hq => ?_, ih (fun v hv => h v (by simp [hv])) u.2⟩)
    rw [if_neg (Nat.pos_iff_ne_zero.1 (h u (by simp) hq))]

theorem hidden_escape_string (s : Bytes) : Hidden (quote :: escape_string s) := by
  obtain ⟨us, t, hus, rfl⟩ := exists_render backslash s
  rw [escape_string_units hus]
  refine hidden_units ?_ quote
  intro u hu
  obtain ⟨⟨k, x⟩, hv, rfl⟩ := List.mem_map.1 hu
  by_cases hspecial : ∃ p ∈ escapes, x = p.1
  · obtain ⟨p, hp, rfl⟩ := hspecial
    rw [escape_all_special k hp]
    exact fun _ => Nat.succ_pos _
  · have hplain : ∀ p ∈ escapes, x ≠ p.1 := fun p hp hx => hspecial ⟨p, hp, hx⟩
    rw [escape_all_plain k hplain]
    exact fun hq => absurd hq (hplain (quote, quote) (by decide))

/-- An escaped text ends in a backslash if the text does. -/
theorem getLast?_escape_string (s : Bytes) :
    (escape_string s).getLast? = some backslash ↔ s.getLast? = some backslash := by
  obtain ⟨us, t, hus, rfl⟩ := exists_render backslash s
  rw [escape_string_units hus, getLast?_render hus, getLast?_render (hus.map escape_all_unmarked)]
  omega

section
variable {str : Bytes} {pos : Nat} {rest : Bytes}

/-- Where the search stops, if it does. -/
theorem string_loop_stop {start fuel : Nat} {value : Bytes} {next : Nat}
    (h : string_loop str start fuel pos = .ok (value, next)) :
    ∃ q, pos ≤ q ∧ q < str.length ∧ value = (str.drop start).take (q - start) ∧ next = uint32 (q + 1) := by
  induction fuel generalizing pos with
  | zero => cases h
  | succ fuel ih =>
    rw [string_loop] at h
    split at h
    · cases h
    · rename_i q hfind
      obtain ⟨hle, hlt⟩ := find_char_some hfind
      split at h
      · obtain ⟨q', hle', hrest⟩ := ih h
        exact ⟨q', by omega, hrest⟩
      · cases h
        exact ⟨q, hle, hlt, rfl, rfl⟩

end

/-- A string as `write_to_string` writes it, in the middle of a text. -/
def written (pre s t : Bytes) : Bytes := pre ++ (quote :: (escape_string s ++ quote :: t))

/-- The reader takes the token of the string and stops at the byte behind it. -/
def EndsAtQuote (pre s t : Bytes) : Prop :=
  read_string (written pre s t) pre.length =
    .ok (.T_STRING (unescape_string (escape_string s)), pre.length + (escape_string s).length + 2)

theorem at_written (pre s t : Bytes) : At (written pre s t) pre.length (quote :: (escape_string s ++ quote :: t)) := by
  have h := At.advance (At.start (pre ++ (quote :: (escape_string s ++ quote :: t))))
  rwa [Nat.zero_add] at h

/-- The search for the closing quote of a written string. -/
theorem string_loop_written (pre s t : Bytes) :
    ∃ fuel, string_loop (written pre s t) (pre.length + 1) ((written pre s t).length + 1) (pre.length + 1) =
      if s.getLast? = some backslash then
        string_loop (written pre s t) (pre.length + 1) fuel (pre.length + (escape_string s).length + 2)
      else .ok (escape_string s, uint32 (pre.length + (escape_string s).length + 2)) := by
  have h := at_written pre s t
  have hprev : charAt (written pre s t) (pre.length + 1 - 1) = quote := h.char
  have hlen := h.next.length
  rw [List.length_append] at hlen
  have hfuel : (escape_string s).length < (written pre s t).length + 1 := by omega
  obtain ⟨fuel, hloop⟩ := string_loop_hidden (pre.length + 1) (by rw [hprev]; exact hidden_escape_string s) h.next hfuel
  have hlast : (quote :: escape_string s).getLast? = some backslash ↔ s.getLast? = some backslash := by
    rw [← getLast?_escape_string s, List.getLast?_cons]
    cases (escape_string s).getLast? with
    | none => exact iff_of_false (by decide) (by simp)
    | some c => simp
  have hvalue : ((written pre s t).drop (pre.length + 1)).take
      (pre.length + 1 + (escape_string s).length - (pre.length + 1)) = escape_string s := by
    rw [h.next.drop, Nat.add_sub_cancel_left, List.take_left]
  rw [hprev, hvalue, show pre.length + 1 + (escape_string s).length + 1 = pre.length + (escape_string s).length + 2 by
    omega] at hloop
  refine ⟨fuel, hloop.trans ?_⟩
  simp only [hlast]

/-- A written string ends where the reader thinks it ends if and only if it does not end in a backslash, and the
cursor can be put there. -/
theorem ends_at_quote_iff (pre s t : Bytes) (hsize : (written pre s t).length < 2 ^ 64) :
    EndsAtQuote pre s t ↔
      s.getLast? ≠ some backslash ∧ pre.length + (escape_string s).length + 2 < 2 ^ 32 := by
  obtain ⟨fuel, hloop⟩ := string_loop_written pre s t
  unfold EndsAtQuote
  rw [read_string_loop (at_written pre s t) (by simp) hsize]
  constructor
  · intro h
    cases hfirst : string_loop (written pre s t) (uint32 (pre.length + 1)) ((written pre s t).length + 1)
        (uint32 (pre.length + 1)) with
    | error e =>
      rw [hfirst] at h
      cases h
    | ok r =>
      obtain ⟨value, next⟩ := r
      rw [hfirst, ok_bind] at h
      obtain ⟨hvalue, hnext⟩ : unescape_string value = unescape_string (escape_string s) ∧
          next = pre.length + (escape_string s).length + 2 := by simpa using h
      have hbound : pre.length + (escape_string s).length + 2 < 2 ^ 32 := by
        obtain ⟨q, -, -, -, hq⟩ := string_loop_stop hfirst
        rw [← hnext, hq]
        exact Nat.mod_lt _ (by decide)
      refine ⟨fun hlast => ?_, hbound⟩
      -- the closing quote is passed, so the token is too long to be unescaped to the string
      rw [uint32_of_lt (by omega), hloop, if_pos hlast] at hfirst
      obtain ⟨q, hle, hlt, hv, hq⟩ := string_loop_stop hfirst
      have hlong : (escape_string s).length + 2 ^ 32 ≤ value.length := by
        rw [hv, List.length_take, List.length_drop]
        unfold uint32 at hq
        omega
      have h1 := (length_unescape value).2
      have h2 := (length_unescape (escape_string s)).1
      rw [hvalue] at h1
      omega
  · rintro ⟨hlast, hbound⟩
    rw [uint32_of_lt (by omega), hloop, if_neg hlast, uint32_of_lt hbound]
    rfl

/-- Behind a string of one backslash the reader goes on to the next quote, two bytes into what follows. -/
theorem backslash_swallows :
    ¬ EndsAtQuote [] [backslash] (ascii ",\"k\":1") ∧
      (read_string (written [] [backslash] (ascii ",\"k\":1")) 0).toOption.map (·.2) = some 6 := by
  have hread : (read_string (written [] [backslash] (ascii ",\"k\":1")) 0).toOption.map (·.2) = some 6 := by
    decide +kernel
  refine ⟨fun h => ?_, hread⟩
  unfold EndsAtQuote at h
  rw [show ([] : Bytes).length = 0 from rfl] at h
  rw [h] at hread
  exact absurd hread (by decide +kernel)

/-- A quote and a slash are no trouble. -/
theorem ends_at_quote_plain : EndsAtQuote (ascii "[") (ascii "a/\"b") (ascii ",1]") :=
  (ends_at_quote_iff _ _ _ (by decide +kernel)).2 (by decide +kernel)

end RtcClient.JsonObject
