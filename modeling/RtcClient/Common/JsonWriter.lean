import RtcClient.Common.JsonText
import Mathlib.Data.List.Forall2
/-!
# The JSON writer

`write_to_string` prints the members in the order of the map, keys as they are, and
escapes every string it comes to in place. It gives the text, `none` for its false, and
the members as they are afterwards. How a stream prints a `double` is a parameter.

What is written without backslashes is read back as it was.
-/

namespace RtcClient

open Lib JsonObject

/-- What stands around the members. -/
def brackets (m_is_array : Bool) (members : Bytes) : Bytes :=
  if m_is_array then openBracket :: members ++ [closeBracket] else openBrace :: members ++ [closeBrace]

/-- What stands before a member's value. -/
def member_name (m_is_array : Bool) (key : Bytes) : Bytes :=
  if m_is_array then [] else quote :: key ++ [quote, colon]

section
variable (stream_double : Float → Bytes)

mutual

def write_value : JsonValue → Option Bytes × JsonValue
  | .T_NULL => (some (ascii "null"), .T_NULL)
  | .T_BOOL v => (some (common_to_string_bool v), .T_BOOL v)
  | .T_INT8 v => (some (common_to_string v.toInt), .T_INT8 v)
  | .T_INT16 v => (some (common_to_string v.toInt), .T_INT16 v)
  | .T_INT32 v => (some (common_to_string v.toInt), .T_INT32 v)
  | .T_INT64 v => (some (common_to_string v.toInt), .T_INT64 v)
  | .T_UINT8 v => (some (common_to_string v.toNat), .T_UINT8 v)
  | .T_UINT16 v => (some (common_to_string v.toNat), .T_UINT16 v)
  | .T_UINT32 v => (some (common_to_string v.toNat), .T_UINT32 v)
  | .T_UINT64 v => (some (common_to_string v.toNat), .T_UINT64 v)
  | .T_DOUBLE v => (some (stream_double v), .T_DOUBLE v)
  | .T_STRING str =>
    let str := escape_string str
    (some (quote :: str ++ [quote]), .T_STRING str)
  | .T_OBJ m_members m_is_array =>
    let (text, m_members) := write_members m_is_array true m_members
    (text.map (brackets m_is_array), .T_OBJ m_members m_is_array)
  | .T_UNDEFINED => (none, .T_UNDEFINED)

/-- The loop over the members, which ends at one that cannot be written. -/
def write_members (m_is_array first : Bool) : List (Bytes × JsonValue) → Option Bytes × List (Bytes × JsonValue)
  | [] => (some [], [])
  | (key, value) :: members =>
    let separator := if first then [] else [comma]
    let (text, value) := write_value value
    match text with
    | none => (none, (key, value) :: members)
    | some text =>
      let (rest, members) := write_members m_is_array false members
      (rest.map (separator ++ member_name m_is_array key ++ text ++ ·), (key, value) :: members)

end

def JsonObject.write_to_string (o : JsonObject) : Option Bytes × JsonObject :=
  let (text, m_members) := write_members stream_double o.m_is_array true o.m_members
  (text.map (brackets o.m_is_array), ⟨m_members, o.m_is_array⟩)

/-! ## The text of a value -/

def Writes (v : JsonValue) (text : Bytes) : Prop := (write_value stream_double v).1 = some text

theorem writes_string (s : Bytes) :
    Writes stream_double (.T_STRING s) (quote :: escape_string s ++ [quote]) := by
  unfold Writes write_value
  rfl

/-- The members of an object with the text of each. -/
def WritesMember (m : Bytes × JsonValue) (text : Bytes) : Prop :=
  ∃ value, text = quote :: m.1 ++ [quote] ++ colon :: value ∧ Writes stream_double m.2 value

/-- The same for either kind of object. -/
def WritesItem (m_is_array : Bool) (m : Bytes × JsonValue) (text : Bytes) : Prop :=
  ∃ value, text = member_name m_is_array m.1 ++ value ∧ Writes stream_double m.2 value

theorem WritesMember.item {m : Bytes × JsonValue} {text : Bytes} (h : WritesMember stream_double m text) :
    WritesItem stream_double false m text := by
  obtain ⟨value, rfl, hvalue⟩ := h
  exact ⟨value, by simp [member_name], hvalue⟩

theorem write_members_items {m_is_array : Bool} {ms : List (Bytes × JsonValue)} {texts : List Bytes}
    (h : List.Forall₂ (WritesItem stream_double m_is_array) ms texts) :
    (write_members stream_double m_is_array true ms).1 = some (commas texts) ∧
      (ms ≠ [] → (write_members stream_double m_is_array false ms).1 = some (comma :: commas texts)) := by
  induction h with
  | nil => exact ⟨rfl, fun h => absurd rfl h⟩
  | @cons m text ms texts hm hms ih =>
    obtain ⟨value, rfl, hvalue⟩ := hm
    obtain ⟨key, v⟩ := m
    unfold Writes at hvalue
    cases hms with
    | nil =>
      refine ⟨?_, fun _ => ?_⟩ <;> rw [write_members] <;> dsimp only <;> rw [hvalue] <;> simp [write_members, commas]
    | @cons m' text' ms texts hm' hms =>
      have hrest := ih.2 (List.cons_ne_nil _ _)
      refine ⟨?_, fun _ => ?_⟩ <;> rw [write_members] <;> dsimp only <;> rw [hvalue] <;> dsimp only <;> rw [hrest] <;>
        simp [commas]

theorem write_members_texts {ms : List (Bytes × JsonValue)} {texts : List Bytes}
    (h : List.Forall₂ (WritesMember stream_double) ms texts) :
    (write_members stream_double false true ms).1 = some (commas texts) :=
  (write_members_items stream_double (h.imp fun _ _ => WritesMember.item stream_double)).1

theorem writes_object {ms : List (Bytes × JsonValue)} {texts : List Bytes}
    (h : List.Forall₂ (WritesMember stream_double) ms texts) :
    Writes stream_double (.T_OBJ ms false) (openBrace :: commas texts ++ [closeBrace]) := by
  unfold Writes
  rw [write_value]
  dsimp only
  rw [write_members_texts stream_double h]
  rfl

theorem write_to_string_object {ms : List (Bytes × JsonValue)} {texts : List Bytes}
    (h : List.Forall₂ (WritesMember stream_double) ms texts) :
    (JsonObject.write_to_string stream_double ⟨ms, false⟩).1 = some (openBrace :: commas texts ++ [closeBrace]) := by
  unfold JsonObject.write_to_string
  dsimp only
  rw [write_members_texts stream_double h]
  rfl

/-- The elements of an array are written in the order of the map. -/
theorem write_members_values {ms : List (Bytes × JsonValue)} {texts : List Bytes}
    (h : List.Forall₂ (fun m text => Writes stream_double m.2 text) ms texts) :
    (write_members stream_double true true ms).1 = some (commas texts) := by
  have hitems : List.Forall₂ (WritesItem stream_double true) ms texts := h.imp fun _ text hm => ⟨text, rfl, hm⟩
  exact (write_members_items stream_double hitems).1

theorem writes_array {ms : List (Bytes × JsonValue)} {texts : List Bytes}
    (h : List.Forall₂ (fun m text => Writes stream_double m.2 text) ms texts) :
    Writes stream_double (.T_OBJ ms true) (openBracket :: commas texts ++ [closeBracket]) := by
  unfold Writes
  rw [write_value]
  dsimp only
  rw [write_members_values stream_double h]
  rfl

theorem write_to_string_array {ms : List (Bytes × JsonValue)} {texts : List Bytes}
    (h : List.Forall₂ (fun m text => Writes stream_double m.2 text) ms texts) :
    (JsonObject.write_to_string stream_double ⟨ms, true⟩).1 = some (openBracket :: commas texts ++ [closeBracket]) := by
  unfold JsonObject.write_to_string
  dsimp only
  rw [write_members_values stream_double h]
  rfl

/-! ## Round trips -/

/-- The text of the value is read as the value. -/
def RoundTrips (v : JsonValue) : Prop := ∃ text, Writes stream_double v text ∧ Reads text v

theorem round_trips_string {s : Bytes} (h : backslash ∉ s) : RoundTrips stream_double (.T_STRING s) :=
  ⟨_, writes_string stream_double s, reads_escaped h⟩

/-- Keys are written as they are. -/
def PlainKeys (ms : List (Bytes × JsonValue)) : Prop := ∀ m ∈ ms, quote ∉ m.1 ∧ backslash ∉ m.1

theorem round_trips_members {ms : List (Bytes × JsonValue)} (hkeys : PlainKeys ms)
    (hvalues : ∀ m ∈ ms, RoundTrips stream_double m.2) :
    ∃ texts, List.Forall₂ (WritesMember stream_double) ms texts ∧ List.Forall₂ ReadsMember texts ms := by
  induction ms with
  | nil => exact ⟨[], .nil, .nil⟩
  | cons m ms ih =>
    obtain ⟨text, hwrites, hreads⟩ := hvalues m (by simp)
    obtain ⟨hq, hb⟩ := hkeys m (by simp)
    obtain ⟨texts, hw, hr⟩ := ih (fun m' hm' => hkeys m' (by simp [hm'])) (fun m' hm' => hvalues m' (by simp [hm']))
    exact ⟨_ :: texts, .cons ⟨text, rfl, hwrites⟩ hw, .cons ⟨_, _, rfl, reads_plain hq hb, hreads⟩ hr⟩

/-- Members that were read are stored as the map they were written from. -/
theorem foldl_set_sorted {ms : List (Bytes × JsonValue)} (hs : Assoc.Sorted ms) :
    ms.foldl (fun o m => o.set m.1 m.2) ({} : JsonObject) = ⟨ms, false⟩ := by
  have hmembers := foldl_set_members ms {}
  rw [Assoc.foldl_insert_sorted (by simpa using hs)] at hmembers
  have harray := foldl_set_is_array ms {}
  generalize ms.foldl (fun o m => o.set m.1 m.2) ({} : JsonObject) = o at hmembers harray
  obtain ⟨m_members, m_is_array⟩ := o
  simp_all

theorem round_trips_object {ms : List (Bytes × JsonValue)} (hs : Assoc.Sorted ms) (hkeys : PlainKeys ms)
    (hvalues : ∀ m ∈ ms, RoundTrips stream_double m.2) : RoundTrips stream_double (.T_OBJ ms false) := by
  obtain ⟨texts, hw, hr⟩ := round_trips_members stream_double hkeys hvalues
  have hread := reads_object hr
  rw [foldl_set_sorted hs] at hread
  exact ⟨_, writes_object stream_double hw, hread⟩

/-- The same for the text that `write_to_string` gives. -/
theorem write_read_object {ms : List (Bytes × JsonValue)} (hs : Assoc.Sorted ms) (hkeys : PlainKeys ms)
    (hvalues : ∀ m ∈ ms, RoundTrips stream_double m.2) :
    ∃ text, (JsonObject.write_to_string stream_double ⟨ms, false⟩).1 = some text ∧
      (text.length < 2 ^ 32 → read_from_string {} text = some ⟨ms, false⟩) := by
  obtain ⟨texts, hw, hr⟩ := round_trips_members stream_double hkeys hvalues
  refine ⟨_, write_to_string_object stream_double hw, fun hlen => ?_⟩
  rw [read_from_string_object hr hlen, foldl_set_sorted hs]

end

end RtcClient
