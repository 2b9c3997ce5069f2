import RtcClient.Common.JsonCompleteness
/-!
# The reader ends

No text makes a reader run out of the fuel `read_text` gives it: the search for a closing
quote goes on behind every quote it finds, and a value that was read is not empty, so each
round of the loops has less text before it.
-/

namespace RtcClient.JsonObject

open Lib

/-- It gives a value or refuses. -/
def Finishes {A : Type} (x : Except Stop A) : Prop := x ≠ .error .unfinished

namespace Finishes

variable {A B : Type}

theorem ok (a : A) : Finishes (.ok a) := nofun

theorem refused : Finishes (.error .refused : Except Stop A) := nofun

theorem bind {x : Except Stop A} {f : A → Except Stop B} (hx : Finishes x)
    (hf : ∀ a, x = .ok a → Finishes (f a)) : Finishes (x >>= f) := by
  cases x with
  | ok a => exact hf a rfl
  | error e =>
    cases e with
    | refused => exact refused
    | unfinished => exact absurd rfl hx

theorem ite {c : Prop} [Decidable c] {x y : Except Stop A} (hx : c → Finishes x) (hy : ¬ c → Finishes y) :
    Finishes (if c then x else y) := by
  by_cases h : c
  · rw [if_pos h]
    exact hx h
  · rw [if_neg h]
    exact hy h

end Finishes

section
variable {str : Bytes} {pos next fuel : Nat} {rest : Bytes}

/-! ## Tokens -/

theorem read_delimiter_finishes (h : At str pos rest) (hs : str.length < 2 ^ 32) :
    Finishes (read_delimiter str pos) := by
  cases hskip : skip rest with
  | nil =>
    rw [read_delimiter_end h hs hskip]
    exact .refused
  | cons c after =>
    obtain ⟨next, hread, -⟩ := read_delimiter_skip h hs hskip
    rw [hread]
    exact .ok (c, next)

/-- Each round goes on behind the quote it has found. -/
theorem string_loop_finishes (start : Nat) (hfuel : str.length - pos < fuel) :
    Finishes (string_loop str start fuel pos) := by
  induction fuel generalizing pos with
  | zero => omega
  | succ fuel ih =>
    rw [string_loop]
    cases hfind : find_char str quote pos with
    | none => exact .refused
    | some found =>
      obtain ⟨hge, hlt⟩ := find_char_some hfind
      exact .ite (fun _ => ih (by omega)) fun _ => .ok _

theorem read_string_finishes (str : Bytes) (pos : Nat) : Finishes (read_string str pos) := by
  unfold read_string
  refine .ite (fun _ => .refused) fun _ => .ite (fun _ => .refused) fun _ => ?_
  exact .bind (string_loop_finishes _ (by omega)) fun _ _ => .ok _

theorem read_number_finishes (h : At str pos rest) (hs : str.length < 2 ^ 32) : Finishes (read_number str pos) := by
  obtain ⟨ds, after, rfl, hds, hafter⟩ := exists_numeric rest
  cases ds with
  | nil =>
    rw [read_number_none h hafter hs]
    exact .refused
  | cons d ds =>
    rw [read_number_numeric (List.cons_ne_nil _ _) hds h hafter hs]
    exact .ok _

theorem read_bool_finishes (str : Bytes) (pos : Nat) (wanted : Bytes) : Finishes (read_bool str pos wanted) := by
  unfold read_bool
  exact .ite (fun _ => .refused) fun _ => .ite (fun _ => .refused) fun _ => .ok _

theorem read_null_finishes (str : Bytes) (pos : Nat) : Finishes (read_null str pos) := by
  unfold read_null
  exact .ite (fun _ => .refused) fun _ => .ite (fun _ => .refused) fun _ => .ok _

/-! ## What is left behind a value -/

theorem value_shorter {v : JsonValue} (h : At str pos rest) (hs : str.length < 2 ^ 32)
    (hread : read_json_key_value fuel str .T_UNDEFINED pos = .ok (v, next)) :
    ∃ after, At str next after ∧ after.length < rest.length := by
  obtain ⟨t, g, b, after, hwf, -, -, -, -, rfl, hafter⟩ := (sound fuel).term hs h hread
  obtain ⟨c, tail, htext, -⟩ := hwf.first
  refine ⟨after, hafter, ?_⟩
  rw [htext]
  simp only [List.length_append, List.length_cons]
  omega

theorem delimiter_shorter {c : UInt8} (h : At str pos rest) (hs : str.length < 2 ^ 32)
    (hread : read_delimiter str pos = .ok (c, next)) : ∃ after, At str next after ∧ after.length < rest.length := by
  obtain ⟨gap, gap', after, -, -, rfl, hafter⟩ := read_delimiter_ok h hs hread
  refine ⟨after, hafter, ?_⟩
  simp only [List.length_append, List.length_cons]
  omega

theorem name_shorter {m_is_array : Bool} {key : Option Bytes} (h : At str pos rest) (hs : str.length < 2 ^ 32)
    (hread : read_name m_is_array fuel str pos = .ok (key, next)) :
    ∃ after, At str next after ∧ after.length ≤ rest.length := by
  obtain ⟨g, name, after, -, -, -, rfl, hafter⟩ := (sound fuel).read_name hs h hread
  refine ⟨after, hafter, ?_⟩
  simp only [List.length_append]
  omega

/-- A value that was read takes at least one character. -/
theorem read_json_key_value_advances {v : JsonValue} (hs : str.length < 2 ^ 32) (hin : pos ≤ str.length)
    (hread : read_json_key_value fuel str .T_UNDEFINED pos = .ok (v, next)) : pos < next := by
  have hat : At str pos (str.drop pos) := ⟨rfl, by rw [List.length_drop]; omega⟩
  obtain ⟨after, hafter, hlt⟩ := value_shorter hat hs hread
  have hlen := hat.length
  have hnext := hafter.length
  omega

/-! ## Values -/

/-- With that much fuel no reader runs out of it. The three take turns, so their bounds differ. -/
structure Ends (fuel : Nat) : Prop where
  term : ∀ {str pos rest}, str.length < 2 ^ 32 → At str pos rest → 3 * rest.length + 2 ≤ fuel →
    Finishes (read_json_key_value fuel str .T_UNDEFINED pos)
  group : ∀ {str pos rest} m_is_array o, str.length < 2 ^ 32 → At str pos rest → 3 * rest.length + 1 ≤ fuel →
    Finishes (read_group m_is_array fuel o str pos)
  items : ∀ {str pos rest} m_is_array o, str.length < 2 ^ 32 → At str pos rest → 3 * rest.length + 3 ≤ fuel →
    Finishes (item_loop m_is_array fuel o str pos)

theorem Ends.read_by (ih : Ends fuel) (c : UInt8) (hs : str.length < 2 ^ 32) (h : At str pos rest)
    (hfuel : 3 * rest.length + 1 ≤ fuel) : Finishes (read_by fuel str .T_UNDEFINED pos c) := by
  unfold JsonObject.read_by
  refine .ite (fun _ => read_string_finishes str pos) fun _ => .ite (fun _ => read_number_finishes h hs) fun _ => ?_
  refine .ite (fun _ => .bind (ih.group false {} hs h hfuel) fun _ _ => .ok _) fun _ => ?_
  refine .ite (fun _ => .bind (ih.group true {} hs h hfuel) fun _ _ => .ok _) fun _ => ?_
  refine .ite (fun _ => read_bool_finishes str pos _) fun _ => .ite (fun _ => read_bool_finishes str pos _) fun _ => ?_
  exact .ite (fun _ => .bind (read_null_finishes str pos) fun _ _ => .ok _) fun _ => .refused

theorem Ends.read_json_key_value (ih : Ends fuel) (hs : str.length < 2 ^ 32) (h : At str pos rest)
    (hfuel : 3 * rest.length + 2 ≤ fuel + 1) :
    Finishes (read_json_key_value (fuel + 1) str .T_UNDEFINED pos) := by
  obtain ⟨g, -, hrest⟩ := exists_skip rest
  have hlen := congrArg List.length hrest
  rw [List.length_append] at hlen
  cases hskip : skip rest with
  | nil =>
    rw [read_json_key_value_end h hs hskip]
    exact .refused
  | cons c tail =>
    rw [hskip] at hlen
    obtain ⟨pos', h', hread⟩ := read_json_key_value_skip fuel .T_UNDEFINED h hs hskip
    rw [hread]
    exact ih.read_by c hs h' (by omega)

theorem Ends.read_group (ih : Ends fuel) (m_is_array : Bool) (o : JsonObject) (hs : str.length < 2 ^ 32)
    (h : At str pos rest) (hfuel : 3 * rest.length + 1 ≤ fuel + 1) :
    Finishes (read_group m_is_array (fuel + 1) o str pos) := by
  rw [read_group_succ]
  refine .ite (fun _ => .refused) fun hleft => .ite (fun _ => .refused) fun _ => ?_
  rw [h.left hs] at hleft
  cases rest with
  | nil => exact absurd (by decide) hleft
  | cons c rest =>
    rw [List.length_cons] at hfuel
    rw [h.next.uint32 hs]
    exact ih.items m_is_array _ hs h.next (by omega)

theorem Ends.read_name (ih : Ends fuel) (m_is_array : Bool) (hs : str.length < 2 ^ 32) (h : At str pos rest)
    (hfuel : 3 * rest.length + 2 ≤ fuel) : Finishes (read_name m_is_array fuel str pos) := by
  unfold JsonObject.read_name
  refine .ite (fun _ => .ok _) fun _ => .bind (ih.term hs h hfuel) fun r hread => ?_
  obtain ⟨key, next⟩ := r
  obtain ⟨after, hafter, -⟩ := value_shorter h hs hread
  cases key with
  | T_STRING key =>
    exact .bind (read_delimiter_finishes hafter hs) fun _ _ => .ite (fun _ => .refused) fun _ => .ok _
  | _ => exact .refused

/-- What is left behind an item is shorter by the value and the delimiter. -/
theorem Ends.read_item (ih : Ends fuel) (m_is_array : Bool) (o : JsonObject) (name : Option Bytes)
    (hs : str.length < 2 ^ 32) (h : At str pos rest) (hfuel : 3 * rest.length + 2 ≤ fuel) :
    Finishes (read_item m_is_array fuel o str name pos) := by
  unfold JsonObject.read_item
  refine .bind (ih.term hs h hfuel) fun r hread => ?_
  obtain ⟨v, pos₁⟩ := r
  obtain ⟨rest₁, h₁, hlt₁⟩ := value_shorter h hs hread
  refine .bind (read_delimiter_finishes h₁ hs) fun r hread => ?_
  obtain ⟨c, pos₂⟩ := r
  obtain ⟨rest₂, h₂, hlt₂⟩ := delimiter_shorter h₁ hs hread
  refine .ite (fun _ => .ok _) fun _ => .ite (fun _ => ?_) fun _ => .refused
  exact ih.items m_is_array _ hs h₂ (by omega)

theorem Ends.item_loop (ih : Ends fuel) (m_is_array : Bool) (o : JsonObject) (hs : str.length < 2 ^ 32)
    (h : At str pos rest) (hfuel : 3 * rest.length + 3 ≤ fuel + 1) :
    Finishes (item_loop m_is_array (fuel + 1) o str pos) := by
  rw [item_loop_succ]
  refine .ite (fun _ => .refused) fun _ => .ite (fun _ => .ok _) fun _ => ?_
  refine .bind (ih.read_name m_is_array hs h (by omega)) fun r hread => ?_
  obtain ⟨after, hafter, hle⟩ := name_shorter h hs hread
  exact ih.read_item m_is_array o r.1 hs hafter (by omega)

theorem ends (fuel : Nat) : Ends fuel := by
  induction fuel with
  | zero =>
    refine ⟨?_, ?_, ?_⟩
    · intro str pos rest _ _ hfuel
      omega
    · intro str pos rest m_is_array o _ _ hfuel
      omega
    · intro str pos rest m_is_array o _ _ hfuel
      omega
  | succ fuel ih => exact ⟨ih.read_json_key_value, ih.read_group, ih.item_loop⟩

/-- `fuelFor` is enough for every text. -/
theorem read_text_finishes (o : JsonObject) (hs : str.length < 2 ^ 32) : Finishes (o.read_text str) := by
  obtain ⟨pos, hwhite, hpos⟩ := read_whitespace_skip (At.start str) hs
  have hlen := hpos.length
  have hfuel : 3 * (skip str).length + 1 ≤ fuelFor str := by
    unfold fuelFor
    omega
  unfold read_text
  refine .ite (fun _ => .refused) fun _ => ?_
  rw [hwhite, ok_bind]
  refine .ite (fun _ => (ends _).group false o hs hpos hfuel) fun _ => ?_
  exact .ite (fun _ => (ends _).group true o hs hpos hfuel) fun _ => .refused

end

end RtcClient.JsonObject
