import RtcClient.Common.Escaping
import RtcClient.Common.JsonWriter
/-!
# What writing does to the object

`write_to_string` succeeds if no member at any depth is undefined (`write_value_isSome`). It
escapes the strings it comes to in place, so it leaves the object as it was only when
none of them has a character to escape (`leaves_unchanged_iff`).
-/

namespace RtcClient

open Lib Lib.Marked JsonObject

namespace JsonValue

mutual

/-- Nothing undefined is in the value. -/
def Defined : JsonValue → Prop
  | .T_OBJ m_members _ => DefinedMembers m_members
  | .T_UNDEFINED => False
  | _ => True

def DefinedMembers : List (Bytes × JsonValue) → Prop
  | [] => True
  | (_, value) :: members => Defined value ∧ DefinedMembers members

end

end JsonValue

open JsonValue

/-! ## Success -/

section
variable (stream_double : Float → Bytes)

mutual

theorem write_value_isSome : ∀ v : JsonValue, (write_value stream_double v).1.isSome ↔ Defined v
  | .T_OBJ m_members m_is_array => by
    have h := write_members_isSome m_is_array true m_members
    rw [write_value, Defined, ← h]
    simp
  | .T_UNDEFINED => by simp [write_value, Defined]
  | .T_NULL | .T_BOOL _ | .T_INT8 _ | .T_INT16 _ | .T_INT32 _ | .T_INT64 _ | .T_UINT8 _ | .T_UINT16 _ | .T_UINT32 _
  | .T_UINT64 _ | .T_DOUBLE _ | .T_STRING _ => by simp [write_value, Defined]

theorem write_members_isSome (m_is_array first : Bool) : ∀ ms : List (Bytes × JsonValue),
    (write_members stream_double m_is_array first ms).1.isSome ↔ DefinedMembers ms
  | [] => by simp [write_members, DefinedMembers]
  | (key, value) :: members => by
    have hvalue := write_value_isSome value
    have hrest := write_members_isSome m_is_array false members
    rw [write_members, DefinedMembers, ← hvalue, ← hrest]
    cases h : write_value stream_double value with
    | mk text v =>
      cases text with
      | none => simp
      | some text => simp

end

end

/-! ## Strings that are not escaped -/

/-- No character of the text is written as an escape sequence. -/
def NoEscapes (s : Bytes) : Prop := backslash ∉ s ∧ ∀ p ∈ escapes, p.1 ∉ s

theorem escape_all_count (u : Nat × UInt8) :
    u.1 ≤ (escape_all u).1 ∧ ((escape_all u).1 = u.1 → u.1 = 0 ∧ ∀ p ∈ escapes, p.1 ≠ u.2) := by
  obtain ⟨k, x⟩ := u
  by_cases hspecial : ∃ p ∈ escapes, x = p.1
  · obtain ⟨p, hp, rfl⟩ := hspecial
    rw [escape_all_special k hp]
    dsimp only
    omega
  · have hplain : ∀ p ∈ escapes, x ≠ p.1 := fun p hp hx => hspecial ⟨p, hp, hx⟩
    rw [escape_all_plain k hplain]
    exact ⟨Nat.le_mul_of_pos_left k (by decide),
      fun h => ⟨by dsimp only at h ⊢; omega, fun p hp hx => hplain p hp hx.symm⟩⟩

/-- A text that keeps its length when it is escaped has only units that do. -/
theorem escape_all_sum (us : List (Nat × UInt8)) :
    (us.map (fun u => u.1 + 1)).sum ≤ (us.map ((fun u => u.1 + 1) ∘ escape_all)).sum ∧
      ((us.map ((fun u => u.1 + 1) ∘ escape_all)).sum = (us.map (fun u => u.1 + 1)).sum →
        ∀ u ∈ us, (escape_all u).1 = u.1) := by
  induction us with
  | nil => simp
  | cons u us ih =>
    have hu := (escape_all_count u).1
    obtain ⟨hle, heq⟩ := ih
    simp only [List.map_cons, List.sum_cons, Function.comp_apply] at hle heq ⊢
    refine ⟨by omega, fun h => ?_⟩
    rw [List.forall_mem_cons]
    exact ⟨by omega, heq (by omega)⟩

/-- Escaping changes every text that has a character to escape. -/
theorem escape_string_eq_self (s : Bytes) : escape_string s = s ↔ NoEscapes s := by
  constructor
  · intro h
    obtain ⟨us, t, hus, rfl⟩ := exists_render backslash s
    rw [escape_string_units hus] at h
    have hlen := congrArg List.length h
    rw [length_render, length_render, List.map_map] at hlen
    obtain ⟨hle, heq⟩ := escape_all_sum us
    obtain rfl : t = 0 := by omega
    have hunits : ∀ u ∈ us, u.1 = 0 ∧ ∀ p ∈ escapes, p.1 ≠ u.2 :=
      fun u hu => (escape_all_count u).2 (heq (by omega) u hu)
    have hmem : ∀ c ∈ render backslash us 0, ∃ u ∈ us, u.1 = 0 ∧ c = u.2 := by
      intro c hc
      rw [render, List.replicate_zero, List.append_nil, List.mem_flatMap] at hc
      obtain ⟨u, hu, hc⟩ := hc
      rw [(hunits u hu).1, List.replicate_zero, List.nil_append, List.mem_singleton] at hc
      exact ⟨u, hu, (hunits u hu).1, hc⟩
    refine ⟨fun hc => ?_, fun p hp hc => ?_⟩
    · obtain ⟨u, hu, -, hc⟩ := hmem _ hc
      exact hus u hu hc.symm
    · obtain ⟨u, hu, -, hc⟩ := hmem _ hc
      exact (hunits u hu).2 p hp hc
  · rintro ⟨hback, hplain⟩
    rw [escape_string_eq hback]
    conv_rhs => rw [← flatMap_escape_nil s]
    refine List.flatMap_congr fun c hc => ?_
    rcases escape_char_cases escapes c with ⟨h, -⟩ | ⟨p, hp, hpc, -⟩
    · rw [h]
      rfl
    · exact absurd (hpc ▸ hc) (hplain p hp)

/-! ## Objects that stay as they are -/

namespace JsonValue

mutual

/-- No string the writer comes to has a character to escape. It does not go on behind a member it cannot write. -/
def Unescaped : JsonValue → Prop
  | .T_STRING str => NoEscapes str
  | .T_OBJ m_members _ => UnescapedMembers m_members
  | _ => True

def UnescapedMembers : List (Bytes × JsonValue) → Prop
  | [] => True
  | (_, value) :: members => Unescaped value ∧ (Defined value → UnescapedMembers members)

end

end JsonValue

section
variable (stream_double : Float → Bytes)

mutual

theorem write_value_unchanged : ∀ v : JsonValue, (write_value stream_double v).2 = v ↔ Unescaped v
  | .T_STRING str => by
    rw [write_value, Unescaped, ← escape_string_eq_self]
    simp
  | .T_OBJ m_members m_is_array => by
    have h := write_members_unchanged m_is_array true m_members
    rw [write_value, Unescaped, ← h]
    simp
  | .T_NULL | .T_BOOL _ | .T_INT8 _ | .T_INT16 _ | .T_INT32 _ | .T_INT64 _ | .T_UINT8 _ | .T_UINT16 _ | .T_UINT32 _
  | .T_UINT64 _ | .T_DOUBLE _ | .T_UNDEFINED => by simp [write_value, Unescaped]

theorem write_members_unchanged (m_is_array first : Bool) : ∀ ms : List (Bytes × JsonValue),
    (write_members stream_double m_is_array first ms).2 = ms ↔ UnescapedMembers ms
  | [] => by simp [write_members, UnescapedMembers]
  | (key, value) :: members => by
    have hvalue := write_value_unchanged value
    have hdefined := write_value_isSome stream_double value
    have hrest := write_members_unchanged m_is_array false members
    rw [write_members, UnescapedMembers, ← hvalue, ← hdefined, ← hrest]
    cases h : write_value stream_double value with
    | mk text v =>
      cases text with
      | none => simp
      | some text => simp

end

/-- Writing leaves the object as it was, and a second writing does what the first did. -/
def LeavesUnchanged (o : JsonObject) : Prop :=
  let first := o.write_to_string stream_double
  let second := first.2.write_to_string stream_double
  first.2 = o ∧ (second.1.isSome ↔ first.1.isSome) ∧ second.1 = first.1

/-- Writing leaves the objects as they were in which it comes to no string with a character to escape. -/
theorem leaves_unchanged_iff (o : JsonObject) :
    LeavesUnchanged stream_double o ↔ UnescapedMembers o.m_members := by
  obtain ⟨ms, m_is_array⟩ := o
  rw [← write_members_unchanged stream_double m_is_array true]
  constructor
  · rintro ⟨h, -⟩
    exact congrArg JsonObject.m_members h
  · intro h
    have hsame : (JsonObject.write_to_string stream_double ⟨ms, m_is_array⟩).2 = ⟨ms, m_is_array⟩ :=
      congrArg (JsonObject.mk · m_is_array) h
    refine ⟨hsame, ?_, ?_⟩
    · rw [hsame]
    · rw [hsame]

end

/-- The member `x/y` of an object. -/
def sample_slash : JsonObject := ⟨[(ascii "a", .T_STRING (ascii "x/y"))], false⟩

theorem slash_escaped_twice : ¬ LeavesUnchanged (fun _ => []) sample_slash ∧
    (sample_slash.write_to_string (fun _ => [])).1 = some (ascii "\x7b\"a\":\"x\\/y\"\x7d") ∧
    ((sample_slash.write_to_string (fun _ => [])).2.write_to_string (fun _ => [])).1 =
      some (ascii "\x7b\"a\":\"x\\\\\\/y\"\x7d") := by
  have hfirst : (sample_slash.write_to_string (fun _ => [])).1 = some (ascii "\x7b\"a\":\"x\\/y\"\x7d") := by
    decide +kernel
  have hsecond : ((sample_slash.write_to_string (fun _ => [])).2.write_to_string (fun _ => [])).1 =
      some (ascii "\x7b\"a\":\"x\\\\\\/y\"\x7d") := by
    decide +kernel
  refine ⟨fun h => ?_, hfirst, hsecond⟩
  have htexts := h.2.2
  rw [hfirst, hsecond] at htexts
  exact absurd htexts (by decide +kernel)

end RtcClient
