import RtcClient.Common.JsonCompleteness
import RtcClient.Common.JsonTree
import RtcClient.Common.Serialising
/-!
# Writing what was read

`read_null` has no value to set, so a `null` leaves an undefined one, which cannot be
written. What was read can be written again if every `null` in it was replaced by a
later member of the same name (`rewritten_iff`).
-/

namespace RtcClient.JsonObject

open Lib JsonValue JsonTree

/-! ## Nulls that stay -/

def Items.keys (items : Items) : List Bytes := items.names.map Name.key

mutual

/-- No `null` stays in the value. -/
def Term.NoNull : Term → Prop
  | .word letters => string_to_lower letters ≠ ascii "null"
  | .group _ _ items => items.NoNull
  | _ => True

/-- No `null` stays in a value of a member, unless the member is set again behind it. -/
def Items.NoNull : Items → Prop
  | .empty => True
  | .last _ term _ => term.NoNull
  | .more name term _ _ items => ((∃ key ∈ name.map Name.key, key ∈ items.keys) ∨ term.NoNull) ∧ items.NoNull

end

/-! ## Members -/

theorem definedMembers_iff (ms : List (Bytes × JsonValue)) : DefinedMembers ms ↔ ∀ m ∈ ms, Defined m.2 := by
  induction ms with
  | nil => simp [DefinedMembers]
  | cons m ms ih => rw [DefinedMembers, List.forall_mem_cons, ih]

/-- Nothing undefined can be found. -/
def AllDefined (ms : List (Bytes × JsonValue)) : Prop := ∀ key v, Assoc.find ms key = some v → Defined v

theorem allDefined_iff {ms : List (Bytes × JsonValue)} (h : Assoc.Sorted ms) : AllDefined ms ↔ DefinedMembers ms := by
  rw [definedMembers_iff]
  constructor
  · intro hall m hm
    exact hall m.1 m.2 (Assoc.find_of_mem h.nodup hm)
  · intro hall key v hfind
    exact hall (key, v) (Assoc.mem_of_find hfind)

/-- Setting a member that is set again later, or to a value that is defined. -/
theorem defined_set (o : JsonObject) (name : Bytes) (value : JsonValue) (later : List Bytes) :
    (∀ key v, Assoc.find (o.set name value).m_members key = some v → key ∉ later → Defined v) ↔
      (name ∈ later ∨ Defined value) ∧
        ∀ key v, Assoc.find o.m_members key = some v → key ∉ name :: later → Defined v := by
  have hfind : ∀ key, Assoc.find (o.set name value).m_members key =
      if name = key then some value else Assoc.find o.m_members key := Assoc.find_insert name value o.m_members
  constructor
  · intro h
    refine ⟨?_, ?_⟩
    · by_cases hname : name ∈ later
      · exact .inl hname
      · exact .inr (h name value (by rw [hfind, if_pos rfl]) hname)
    · intro key v hv hkey
      rw [List.mem_cons, not_or] at hkey
      exact h key v (by rw [hfind, if_neg (Ne.symm hkey.1), hv]) hkey.2
  · rintro ⟨hvalue, hrest⟩ key v hv hkey
    rw [hfind] at hv
    split at hv
    · rename_i hname
      subst hname
      cases hv
      exact hvalue.resolve_left hkey
    · rename_i hname
      refine hrest key v hv ?_
      rw [List.mem_cons, not_or]
      exact ⟨Ne.symm hname, hkey⟩

/-- What has been found so far counts unless it is set again. -/
theorem defined_fill_object : ∀ (items : Items), items.WellFormed false →
    (∀ t ∈ items.terms, (Defined t.value ↔ t.NoNull)) → ∀ o : JsonObject,
    (AllDefined (items.fill o).m_members ↔
      items.NoNull ∧ ∀ key v, Assoc.find o.m_members key = some v → key ∉ items.keys → Defined v)
  | .empty, _, _, o => by simp [Items.fill, Items.NoNull, Items.keys, Items.names, AllDefined]
  | .last name t gap, h, hterms, o => by
    cases name with
    | none => cases h.1
    | some n =>
      have ht : Defined t.value ↔ t.NoNull := hterms t (by simp [Items.terms])
      have hset := defined_set o n.key t.value []
      rw [ht] at hset
      simpa [AllDefined, Items.fill, Items.NoNull, Items.keys, Items.names, add] using hset
  | .more name t gap gap' items, h, hterms, o => by
    cases name with
    | none => cases h.1
    | some n =>
      have ht : Defined t.value ↔ t.NoNull := hterms t (by simp [Items.terms])
      have hlater := defined_fill_object items h.2.2.2.2 (fun t ht => hterms t (by simp [Items.terms, ht]))
        (o.set n.key t.value)
      rw [defined_set, ht] at hlater
      have hkeys : (Items.more (some n) t gap gap' items).keys = n.key :: items.keys := rfl
      rw [Items.fill, Items.NoNull, hkeys]
      simp only [Option.map_some, Option.mem_def, Option.some.injEq, exists_eq_left', add]
      rw [hlater]
      tauto

/-- Elements are never replaced. -/
theorem filled_items : ∀ (items : Items), items.WellFormed true → ∀ {o : JsonObject} {vs : List JsonValue},
    Filled o vs → Filled (items.fill o) (vs ++ items.terms.map Term.value)
  | .empty, _, o, vs, ho => by simpa [Items.terms, Items.fill] using ho
  | .last name t gap, h, o, vs, ho => by
    cases name with
    | none => exact ho.push t.value
    | some n => cases h.1.1
  | .more name t gap gap' items, h, o, vs, ho => by
    cases name with
    | none =>
      have hlater := filled_items items h.2.2.2.2 (ho.push t.value)
      rw [List.append_assoc] at hlater
      exact hlater
    | some n => cases h.1.1

theorem allDefined_filled {o : JsonObject} {vs : List JsonValue} (h : Filled o vs) :
    AllDefined o.m_members ↔ ∀ v ∈ vs, Defined v := by
  constructor
  · intro hall v hv
    obtain ⟨i, hi⟩ := List.mem_iff_getElem?.1 hv
    exact hall _ v ((h.find _ v).2 ⟨i, hi, rfl⟩)
  · intro hall key v hfind
    obtain ⟨i, hi, -⟩ := (h.find key v).1 hfind
    exact hall v (List.mem_of_getElem? hi)

theorem noNull_elements : ∀ (items : Items), items.WellFormed true → (items.NoNull ↔ ∀ t ∈ items.terms, t.NoNull)
  | .empty, _ => by simp [Items.NoNull, Items.terms]
  | .last name t gap, _ => by simp [Items.NoNull, Items.terms]
  | .more name t gap gap' items, h => by
    cases name with
    | none =>
      rw [Items.NoNull, Items.terms, List.forall_mem_cons, ← noNull_elements items h.2.2.2.2]
      simp
    | some n => cases h.1.1

/-! ## Objects that were read -/

theorem sorted_add {o : JsonObject} (h : Assoc.Sorted o.m_members) (key : Option Bytes) (value : JsonValue) :
    Assoc.Sorted (o.add key value).m_members := by
  cases key with
  | some key => exact Assoc.sorted_insert h key value
  | none =>
    rw [add, push]
    split
    · exact Assoc.sorted_insert h _ value
    · exact h

theorem sorted_fill : ∀ (items : Items) {o : JsonObject}, Assoc.Sorted o.m_members →
    Assoc.Sorted (items.fill o).m_members
  | .empty, _, h => h
  | .last _ _ _, _, h => sorted_add h _ _
  | .more _ _ _ _ items, _, h => sorted_fill items (sorted_add h _ _)

theorem defined_fill {m_is_array : Bool} {items : Items} (h : items.WellFormed m_is_array)
    (hterms : ∀ t ∈ items.terms, (Defined t.value ↔ t.NoNull)) :
    DefinedMembers (items.fill { m_is_array := m_is_array }).m_members ↔ items.NoNull := by
  rw [← allDefined_iff (sorted_fill items (o := { m_is_array := m_is_array }) List.Pairwise.nil)]
  cases m_is_array with
  | true =>
    rw [allDefined_filled (filled_items items h filled_nil), noNull_elements items h, List.nil_append,
      List.forall_mem_map]
    exact forall₂_congr hterms
  | false =>
    rw [defined_fill_object items h hterms]
    simp

mutual

/-- A value that was read is defined if no `null` stays in it. -/
theorem defined_value : ∀ t : Term, t.WellFormed → (Defined t.value ↔ t.NoNull)
  | .string _, _ => iff_of_true trivial trivial
  | .number _, _ => by
    rw [Term.value, number_value]
    split <;> exact iff_of_true trivial trivial
  | .word letters, _ => by
    rw [Term.value, Term.NoNull]
    split
    · rename_i h
      exact iff_of_false id fun hne => hne h
    · rename_i h
      exact iff_of_true trivial h
  | .group _ _ items, h => defined_fill h.2 (defined_values items h.2)

theorem defined_values {m_is_array : Bool} : ∀ items : Items, items.WellFormed m_is_array →
    ∀ t ∈ items.terms, (Defined t.value ↔ t.NoNull)
  | .empty, _ => nofun
  | .last _ t _, h => by
    rw [Items.terms, List.forall_mem_singleton]
    exact defined_value t h.2.1
  | .more _ t _ _ items, h => by
    rw [Items.terms, List.forall_mem_cons]
    exact ⟨defined_value t h.2.1, defined_values items h.2.2.2.2⟩

end

/-- An accepted text has its tokens, and the object made of it can be written exactly if no `null` stays. -/
theorem rewritten_iff {s : Bytes} {o : JsonObject} (hs : s.length < 2 ^ 32) (h : read_from_string {} s = some o) :
    Nonempty (Layout s) ∧ ∀ (l : Layout s) (stream_double : Float → Bytes),
      ((o.write_to_string stream_double).1.isSome ↔ l.root.NoNull) := by
  refine ⟨?_, ?_⟩
  · obtain ⟨l, -⟩ := exists_layout h hs
    exact ⟨l⟩
  · intro l stream_double
    obtain ⟨-, rfl⟩ := (l.accepted_iff hs {} o).1 h
    have hread : l.read {} = l.items.fill { m_is_array := l.m_is_array } := by
      rw [Layout.read]
      cases l.m_is_array <;> rfl
    have hdefined := defined_fill l.wellFormed.2 (defined_values l.items l.wellFormed.2)
    rw [← hread, ← write_members_isSome stream_double (l.read {}).m_is_array true] at hdefined
    rw [Layout.root, Term.NoNull, ← hdefined, write_to_string]
    simp

/-! ### Texts -/

/-- The name `a`. -/
def name_a : Name := ⟨[97], [], []⟩

theorem name_a_wellFormed : name_a.WellFormed := ⟨closes_plain (by decide) (by decide), blank_nil, blank_nil⟩

/-- The text of an object with the items. -/
def object_text (items : Items) (h : items.WellFormed false) : Layout (Term.group false [] items).text where
  lead := []
  m_is_array := false
  gap := []
  items := items
  rest := []
  blank := blank_nil
  wellFormed := ⟨blank_nil, h⟩
  text := (List.append_nil _).symm

theorem read_object_text {items : Items} (h : items.WellFormed false) (htight : items.Tight)
    (hs : (Term.group false [] items).text.length < 2 ^ 32) :
    read_from_string {} (Term.group false [] items).text = some (items.fill {}) :=
  ((object_text items h).accepted_iff hs _ _).2 ⟨⟨fun _ => rfl, htight⟩, rfl⟩

/-- A member that is `null` first. -/
def null_replaced : Items := .more (some name_a) (.word (ascii "null")) [] [] (.last (some name_a) (.number [55]) [])

theorem null_wellFormed : (Term.word (ascii "null")).WellFormed := by
  rw [Term.WellFormed]
  simp [ascii, string_to_lower]

theorem rewritten_null_replaced :
    Nonempty (Layout (ascii "\x7b\"a\":null,\"a\":7\x7d")) ∧
      ∀ (l : Layout (ascii "\x7b\"a\":null,\"a\":7\x7d")) (stream_double : Float → Bytes),
        (((null_replaced.fill {}).write_to_string stream_double).1.isSome ↔ l.root.NoNull) := by
  have htext : (Term.group false [] null_replaced).text = ascii "\x7b\"a\":null,\"a\":7\x7d" := by decide +kernel
  have hwf : null_replaced.WellFormed false :=
    ⟨⟨rfl, name_a_wellFormed⟩, null_wellFormed, blank_nil, blank_nil, ⟨rfl, name_a_wellFormed⟩,
      ⟨55, [], rfl, rfl, nofun⟩, blank_nil⟩
  rw [← htext]
  exact rewritten_iff (by decide +kernel) (read_object_text hwf ⟨trivial, trivial⟩ (by decide +kernel))

/-- A member that is `null`. -/
def null_member : Items := .last (some name_a) (.word (ascii "null")) []

theorem null_not_written :
    read_from_string {} (ascii "\x7b\"a\":null\x7d") = some (null_member.fill {}) ∧
      ((null_member.fill {}).write_to_string fun _ => []).1 = none ∧
      ¬ ∀ (s : Bytes) (o : JsonObject) (stream_double : Float → Bytes), read_from_string {} s = some o →
        (o.write_to_string stream_double).1.isSome := by
  have htext : (Term.group false [] null_member).text = ascii "\x7b\"a\":null\x7d" := by decide +kernel
  have hread : read_from_string {} (Term.group false [] null_member).text = some (null_member.fill {}) :=
    read_object_text ⟨⟨rfl, name_a_wellFormed⟩, null_wellFormed, blank_nil⟩ trivial (by decide +kernel)
  have hwrite : ((null_member.fill {}).write_to_string fun _ => []).1 = none := rfl
  refine ⟨htext ▸ hread, hwrite, fun h => ?_⟩
  have hsome := h _ _ (fun _ => []) hread
  rw [hwrite] at hsome
  cases hsome

end RtcClient.JsonObject
