import RtcClient.Common.JsonIntegers
/-!
# The values the reader can make

Not every value that can be written comes back from a text: a `null` is left undefined,
there are no negative numbers, and no string or key ends in a backslash
(`legible_read`). So for most values it is clear from their own text alone whether they
come back: it is read as a value wherever it stands, or the value cannot come back from
any text at all (`settled`).
-/

namespace RtcClient

open Lib Lib.Marked JsonObject

namespace JsonValue

/-! ## Integers -/

mutual

/-- The value with its integers in the type the reader has for them, as far as they fit. -/
def widen : JsonValue → JsonValue
  | .T_OBJ m_members m_is_array => .T_OBJ (widen_members m_members) m_is_array
  | .T_INT8 v => .T_INT64 (Int64.ofInt v.toInt)
  | .T_INT16 v => .T_INT64 (Int64.ofInt v.toInt)
  | .T_INT32 v => .T_INT64 (Int64.ofInt v.toInt)
  | .T_UINT8 v => .T_INT64 (Int64.ofInt v.toNat)
  | .T_UINT16 v => .T_INT64 (Int64.ofInt v.toNat)
  | .T_UINT32 v => .T_INT64 (Int64.ofInt v.toNat)
  | .T_UINT64 v => if v.toNat < 2 ^ 63 then .T_INT64 (Int64.ofInt v.toNat) else .T_UINT64 v
  | .T_INT64 v => .T_INT64 v
  | .T_NULL => .T_NULL
  | .T_BOOL v => .T_BOOL v
  | .T_DOUBLE v => .T_DOUBLE v
  | .T_STRING str => .T_STRING str
  | .T_UNDEFINED => .T_UNDEFINED

def widen_members : List (Bytes × JsonValue) → List (Bytes × JsonValue)
  | [] => []
  | (key, value) :: members => (key, widen value) :: widen_members members

end

theorem le_integer {v : JsonValue} {n : Int} (h : v.integer = some n) : -2 ^ 63 ≤ n := by
  cases v with
  | T_INT8 v => cases h; exact Int.le_trans (by decide) v.le_toInt
  | T_INT16 v => cases h; exact Int.le_trans (by decide) v.le_toInt
  | T_INT32 v => cases h; exact Int.le_trans (by decide) v.le_toInt
  | T_INT64 v => cases h; exact v.le_toInt
  | T_UINT8 v => cases h; exact Int.le_trans (by decide) (Int.natCast_nonneg _)
  | T_UINT16 v => cases h; exact Int.le_trans (by decide) (Int.natCast_nonneg _)
  | T_UINT32 v => cases h; exact Int.le_trans (by decide) (Int.natCast_nonneg _)
  | _ => cases h

theorem widen_integer {v : JsonValue} {n : Int} (h : v.integer = some n) : v.widen = .T_INT64 (Int64.ofInt n) := by
  cases v with
  | T_INT8 v => cases h; rw [widen]
  | T_INT16 v => cases h; rw [widen]
  | T_INT32 v => cases h; rw [widen]
  | T_INT64 v => cases h; rw [widen, Int64.ofInt_toInt]
  | T_UINT8 v => cases h; rw [widen]
  | T_UINT16 v => cases h; rw [widen]
  | T_UINT32 v => cases h; rw [widen]
  | _ => cases h

end JsonValue

open JsonValue

/-! ## What is read -/

/-- What a value that comes from a text is like. -/
inductive Legible : JsonValue → Prop where
  | undefined : Legible .T_UNDEFINED
  | bool (b : Bool) : Legible (.T_BOOL b)
  | int64 {i : Int64} : 0 ≤ i.toInt → Legible (.T_INT64 i)
  | double (d : Float) : Legible (.T_DOUBLE d)
  | string {s : Bytes} : s.getLast? ≠ some backslash → Legible (.T_STRING s)
  | obj {m_members : List (Bytes × JsonValue)} (m_is_array : Bool) :
      (∀ m ∈ m_members, m.1.getLast? ≠ some backslash) → (∀ m ∈ m_members, Legible m.2) →
      Legible (.T_OBJ m_members m_is_array)

theorem getLast?_quote (s : Bytes) : (quote :: s).getLast? = some backslash ↔ s.getLast? = some backslash := by
  rw [List.getLast?_cons]
  cases s.getLast? with
  | none => exact iff_of_false (by decide) (by simp)
  | some c => exact Iff.rfl

/-- A token that closes has no backslash at its end, also when it is unescaped. -/
theorem getLast?_unescape {raw : Bytes} (h : Closes raw) : (unescape_string raw).getLast? ≠ some backslash := by
  obtain ⟨us, t, hus, rfl⟩ := exists_render backslash raw
  obtain rfl : t = 0 := by
    by_contra ht
    have hlast := (getLast?_render hus).2 (Nat.pos_of_ne_zero ht)
    exact h.2 ((getLast?_quote _).2 hlast)
  rw [unescape_string_units hus]
  exact fun hlast => absurd ((getLast?_render (hus.map unescape_all_unmarked)).1 hlast) (Nat.not_lt_zero _)

theorem legible_number {digits : Bytes}
    (h : ∃ c tail, digits = c :: tail ∧ isdigit c = true ∧ ∀ d ∈ tail, numeric d = true) :
    Legible (number_value digits) := by
  rw [number_value]
  split
  · exact .double _
  · rename_i hpoint
    obtain ⟨c, tail, rfl, hc, htail⟩ := h
    have hdigits : ∀ d ∈ c :: tail, isdigit d = true := by
      rw [List.forall_mem_cons]
      refine ⟨hc, fun d hd => ?_⟩
      have hnumeric := htail d hd
      rw [numeric, Bool.or_eq_true] at hnumeric
      refine hnumeric.resolve_right fun hd' => hpoint ?_
      rw [← beq_iff_eq.1 hd']
      exact List.mem_cons_of_mem _ hd
    have hvalue : 0 ≤ string_to_long (c :: tail) ∧ string_to_long (c :: tail) < 2 ^ 63 := by
      unfold string_to_long
      rw [c_str_digits hdigits, dropWhile_digits hdigits, split_sign_digits hdigits]
      simp only [Bool.false_eq_true, if_false]
      omega
    refine .int64 ?_
    rw [Int64.toInt_ofInt_of_le (by omega) hvalue.2]
    exact hvalue.1

/-- The members of an object that is filled from a text. -/
def LegibleMembers (o : JsonObject) : Prop :=
  ∀ m ∈ o.m_members, m.1.getLast? ≠ some backslash ∧ Legible m.2

theorem LegibleMembers.set {o : JsonObject} (h : LegibleMembers o) {key : Bytes} {v : JsonValue}
    (hkey : key.getLast? ≠ some backslash) (hv : Legible v) : LegibleMembers (o.set key v) := by
  intro m hm
  rcases Assoc.mem_of_mem_insert hm with rfl | hm
  · exact ⟨hkey, hv⟩
  · exact h m hm

theorem LegibleMembers.add {o : JsonObject} (h : LegibleMembers o) {m_is_array : Bool} {name : Option Name}
    (hname : NameFits m_is_array name) {v : JsonValue} (hv : Legible v) :
    LegibleMembers (o.add (name.map Name.key) v) := by
  cases name with
  | none =>
    rw [Option.map_none, JsonObject.add, JsonObject.push]
    split
    · refine h.set (fun hlast => ?_) hv
      have hdigit := isdigit_common_to_string _ _ (List.mem_of_getLast? hlast)
      exact absurd hdigit (by decide)
    · exact h
  | some n => exact h.set (getLast?_unescape hname.2.1) hv

mutual

theorem legible_value : ∀ t : Term, t.WellFormed → Legible t.value
  | .string _, h => .string (getLast?_unescape h)
  | .number _, h => legible_number h
  | .word letters, _ => by
    rw [Term.value]
    split
    · exact .undefined
    · exact .bool _
  | .group m_is_array _ items, h => by
    have hmembers := legible_fill items { m_is_array := m_is_array } h.2 (fun m hm => by cases hm)
    exact .obj _ (fun m hm => (hmembers m hm).1) (fun m hm => (hmembers m hm).2)

theorem legible_fill {m_is_array : Bool} :
    ∀ (items : Items) (o : JsonObject), items.WellFormed m_is_array → LegibleMembers o → LegibleMembers (items.fill o)
  | .empty, _, _, ho => ho
  | .last _ term _, _, h, ho => ho.add h.1 (legible_value term h.2.1)
  | .more _ term _ _ items, _, h, ho => legible_fill items _ h.2.2.2.2 (ho.add h.1 (legible_value term h.2.1))

end

/-- Nothing else comes from a text. -/
theorem legible_read {text : Bytes} {o : JsonObject} (hlen : text.length < 2 ^ 32)
    (h : read_from_string {} text = some o) (key : Bytes) : Legible (o.get key) := by
  obtain ⟨l, -, rfl⟩ := exists_layout h hlen
  have hmembers : LegibleMembers (l.read {}) := by
    refine legible_fill l.items _ l.wellFormed.2 fun m hm => ?_
    split at hm <;> cases hm
  rw [JsonObject.get]
  cases hfind : Assoc.find (l.read {}).m_members key with
  | none => exact .undefined
  | some v => exact (hmembers _ (Assoc.mem_of_find hfind)).2

/-! ## What is written -/

section
variable (stream_double : Float → Bytes)

/-- Members that can be written have texts. -/
theorem exists_item_texts {m_is_array : Bool} {ms : List (Bytes × JsonValue)} :
    ∀ {first : Bool} {body : Bytes}, (write_members stream_double m_is_array first ms).1 = some body →
      ∃ texts, List.Forall₂ (WritesItem stream_double m_is_array) ms texts := by
  induction ms with
  | nil => exact fun _ => ⟨[], .nil⟩
  | cons m ms ih =>
    intro first body h
    obtain ⟨key, v⟩ := m
    rw [write_members] at h
    dsimp only at h
    cases hvalue : (write_value stream_double v).1 with
    | none => rw [hvalue] at h; cases h
    | some value =>
      rw [hvalue] at h
      obtain ⟨rest, hrest, -⟩ := Option.map_eq_some_iff.1 h
      obtain ⟨texts, htexts⟩ := ih hrest
      exact ⟨_ :: texts, .cons ⟨value, rfl, hvalue⟩ htexts⟩

/-- The text of an object or an array. -/
theorem writes_group {m_is_array : Bool} {ms : List (Bytes × JsonValue)} {text : Bytes}
    (h : Writes stream_double (.T_OBJ ms m_is_array) text) :
    ∃ texts, List.Forall₂ (WritesItem stream_double m_is_array) ms texts ∧
      text = opening m_is_array :: commas texts ++ [closing m_is_array] := by
  unfold Writes at h
  rw [write_value] at h
  obtain ⟨body, hbody, rfl⟩ := Option.map_eq_some_iff.1 h
  obtain ⟨texts, htexts⟩ := exists_item_texts stream_double hbody
  rw [(write_members_items stream_double htexts).1] at hbody
  cases hbody
  refine ⟨texts, htexts, ?_⟩
  cases m_is_array <;> rfl

mutual

/-- How a stream prints the numbers of type `double` decides whether they are read, and keys are not escaped: a quote
in one of them would close it. -/
def Settled : JsonValue → Prop
  | .T_DOUBLE v => ∃ w, Reads (stream_double v) w
  | .T_OBJ m_members m_is_array => SettledMembers m_is_array m_members
  | _ => True

def SettledMembers (m_is_array : Bool) : List (Bytes × JsonValue) → Prop
  | [] => True
  | (key, value) :: members =>
    (m_is_array = false → Hidden (quote :: key)) ∧ Settled value ∧ SettledMembers m_is_array members

end

theorem settled_integer {v : JsonValue} {n : Int} (h : v.integer = some n) {text : Bytes}
    (hw : Writes stream_double v text) : (∃ w, Reads text w) ∨ ¬ Legible v.widen := by
  have htext := writes_integer stream_double h
  unfold Writes at htext hw
  rw [htext] at hw
  cases hw
  have hlt := integer_lt h
  by_cases hn : 0 ≤ n
  · obtain ⟨k, rfl⟩ := Int.eq_ofNat_of_zero_le hn
    exact .inl ⟨_, reads_number (by omega)⟩
  · -- a minus sign is no text of a number
    refine .inr fun hleg => ?_
    rw [widen_integer h] at hleg
    cases hleg with
    | int64 hi =>
      rw [Int64.toInt_ofInt_of_le (le_integer h) hlt] at hi
      exact hn hi

mutual

/-- A settled value is read from its own text, or comes from no text. -/
theorem settled : ∀ (v : JsonValue) {text : Bytes}, Settled stream_double v → Writes stream_double v text →
    (∃ w, Reads text w) ∨ ¬ Legible v.widen
  | .T_NULL, _, _, _ => .inr fun h => by rw [widen] at h; cases h
  | .T_BOOL b, text, _, hw => by
    unfold Writes at hw
    rw [write_value] at hw
    cases hw
    exact .inl ⟨_, reads_bool b⟩
  | .T_INT8 _, _, _, hw => settled_integer stream_double rfl hw
  | .T_INT16 _, _, _, hw => settled_integer stream_double rfl hw
  | .T_INT32 _, _, _, hw => settled_integer stream_double rfl hw
  | .T_INT64 _, _, _, hw => settled_integer stream_double rfl hw
  | .T_UINT8 _, _, _, hw => settled_integer stream_double rfl hw
  | .T_UINT16 _, _, _, hw => settled_integer stream_double rfl hw
  | .T_UINT32 _, _, _, hw => settled_integer stream_double rfl hw
  | .T_UINT64 v, _, _, hw => by
    unfold Writes at hw
    rw [write_value] at hw
    cases hw
    by_cases hv : v.toNat < 2 ^ 63
    · exact .inl ⟨_, reads_number hv⟩
    · -- the reader has no unsigned integers
      refine .inr fun h => ?_
      rw [widen, if_neg hv] at h
      cases h
  | .T_DOUBLE _, _, hs, hw => by
    unfold Writes at hw
    rw [write_value] at hw
    cases hw
    rw [Settled] at hs
    exact .inl hs
  | .T_STRING s, _, _, hw => by
    unfold Writes at hw
    rw [write_value] at hw
    cases hw
    by_cases hlast : s.getLast? = some backslash
    · -- it hides the quote that should close the text
      refine .inr fun h => ?_
      rw [widen] at h
      cases h with
      | string hnot => exact hnot hlast
    · refine .inl ⟨_, reads_closed ⟨hidden_escape_string s, fun h => hlast ?_⟩⟩
      exact (getLast?_escape_string s).1 ((getLast?_quote _).1 h)
  | .T_OBJ ms m_is_array, _, hs, hw => by
    obtain ⟨texts, htexts, rfl⟩ := writes_group stream_double hw
    rw [Settled] at hs
    rcases settled_members m_is_array ms hs htexts with ⟨xs, hxs⟩ | hnot
    · exact .inl ⟨_, reads_group hxs⟩
    · refine .inr fun h => hnot ?_
      rw [widen] at h
      cases h with
      | obj _ hkeys hvalues => exact fun m hm => ⟨hkeys m hm, hvalues m hm⟩
  | .T_UNDEFINED, _, _, hw => by
    unfold Writes at hw
    rw [write_value] at hw
    cases hw

theorem settled_members (m_is_array : Bool) : ∀ (ms : List (Bytes × JsonValue)) {texts : List Bytes},
    SettledMembers stream_double m_is_array ms → List.Forall₂ (WritesItem stream_double m_is_array) ms texts →
      (∃ xs, List.Forall₂ (ReadsItem m_is_array) texts xs) ∨ ¬ LegibleMembers ⟨widen_members ms, m_is_array⟩
  | [], _, _, .nil => .inl ⟨[], .nil⟩
  | (key, v) :: ms, _, hs, .cons hm hms => by
    rw [SettledMembers] at hs
    obtain ⟨hkey, hv, hrest⟩ := hs
    obtain ⟨value, rfl, hwrites⟩ := hm
    rw [widen_members]
    rcases settled v hv hwrites with ⟨w, hw⟩ | hnot
    · rcases settled_members m_is_array ms hrest hms with ⟨xs, hxs⟩ | hnot
      · cases m_is_array with
        | true => exact .inl ⟨(none, w) :: xs, .cons ⟨rfl, hw⟩ hxs⟩
        | false =>
          -- the same for a key
          by_cases hlast : (quote :: key).getLast? = some backslash
          · exact .inr fun h => (h (key, v.widen) List.mem_cons_self).1 ((getLast?_quote key).1 hlast)
          · have hread := reads_closed ⟨hkey rfl, hlast⟩
            refine .inl ⟨(some (unescape_string key), w) :: xs, .cons ⟨rfl, _, _, ?_, hread, hw⟩ hxs⟩
            simp [member_name]
      · exact .inr fun h => hnot fun m hm => h m (List.mem_cons_of_mem _ hm)
    · exact .inr fun h => hnot (h (key, v.widen) List.mem_cons_self).2

end

end

end RtcClient
