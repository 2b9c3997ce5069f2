import RtcClient.Common.JsonText
import Mathlib.Data.List.Forall2
/-!
# Incoming JSON

A JSON tree is printed compactly: no whitespace, strings and keys escaped as
`escape_string` escapes them. `read_from_string` builds the same tree from the text, at
every depth.
-/

namespace RtcClient

open Lib

/-- What a JSON text says. -/
inductive JsonTree where
  | obj (members : List (Bytes × JsonTree))
  | arr (elements : List JsonTree)
  | bool (b : Bool)
  | num (n : Nat)
  | str (s : Bytes)

namespace JsonTree

open JsonObject

/-! ## Printing -/

def print_string (s : Bytes) : Bytes := quote :: escape_string s ++ [quote]

mutual

def print : JsonTree → Bytes
  | obj members => openBrace :: commas (print_members members) ++ [closeBrace]
  | arr elements => openBracket :: commas (print_elements elements) ++ [closeBracket]
  | bool b => common_to_string_bool b
  | num n => common_to_string n
  | str s => print_string s

def print_members : List (Bytes × JsonTree) → List Bytes
  | [] => []
  | (key, j) :: members => (print_string key ++ colon :: print j) :: print_members members

def print_elements : List JsonTree → List Bytes
  | [] => []
  | j :: elements => print j :: print_elements elements

end

theorem print_members_eq (members : List (Bytes × JsonTree)) :
    print_members members = members.map (fun m => print_string m.1 ++ colon :: m.2.print) := by
  induction members with
  | nil => rfl
  | cons m members ih => rw [print_members, ih, List.map_cons]

theorem print_elements_eq (elements : List JsonTree) : print_elements elements = elements.map print := by
  induction elements with
  | nil => rfl
  | cons j elements ih => rw [print_elements, ih, List.map_cons]

/-- The trees the text form is for: distinct keys, numbers that fit an `int64_t`, no backslash. -/
inductive Printable : JsonTree → Prop where
  | obj {members : List (Bytes × JsonTree)} : (members.map (·.1)).Nodup → (∀ m ∈ members, backslash ∉ m.1) →
      (∀ m ∈ members, Printable m.2) → Printable (.obj members)
  | arr {elements : List JsonTree} : (∀ j ∈ elements, Printable j) → Printable (.arr elements)
  | bool (b : Bool) : Printable (.bool b)
  | num {n : Nat} : n < 2 ^ 63 → Printable (.num n)
  | str {s : Bytes} : backslash ∉ s → Printable (.str s)

/-- A text is an object or an array. -/
def IsRoot : JsonTree → Prop
  | obj _ => True
  | arr _ => True
  | _ => False

/-! ## The tree in memory -/

/-- A value is exactly a tree: the same keys, the same elements in the same places, and the same values. -/
inductive Decodes : JsonTree → JsonValue → Prop where
  | obj {members : List (Bytes × JsonTree)} {o : JsonObject} : o.m_is_array = false →
      o.m_members.length = members.length →
      (∀ key, (Assoc.find o.m_members key).isSome ↔ ∃ m ∈ members, m.1 = key) →
      (∀ m ∈ members, Decodes m.2 (o.get m.1)) → Decodes (.obj members) (.ofObject o)
  | arr {elements : List JsonTree} {o : JsonObject} : o.array_size = elements.length →
      o.m_members.length = elements.length →
      (∀ key, (Assoc.find o.m_members key).isSome ↔ ∃ i : Nat, i < elements.length ∧ key = common_to_string i) →
      (∀ (i : Nat) (h : i < elements.length), Decodes elements[i] (o.getIndex i)) →
      Decodes (.arr elements) (.ofObject o)
  | bool (b : Bool) : Decodes (.bool b) (.T_BOOL b)
  | num {n : Nat} {i : Int64} : i.toInt = n → Decodes (.num n) (.T_INT64 i)
  | str (s : Bytes) : Decodes (.str s) (.T_STRING s)

/-! ## Strings -/

theorem reads_print_string {s : Bytes} (h : backslash ∉ s) : Reads (print_string s) (.T_STRING s) := reads_escaped h

/-! ## Objects -/

/-- The members of an object that was read are those of its text. -/
theorem find_foldl_set {ms : List (Bytes × JsonValue)} (hd : (ms.map (·.1)).Nodup) (key : Bytes) :
    Assoc.find (ms.foldl (fun o m => o.set m.1 m.2) ({} : JsonObject)).m_members key = Assoc.find ms key := by
  rw [foldl_set_members, Assoc.find_foldl_insert hd]
  exact Option.or_none

/-! ## Arrays -/

/-- The values are stored under the indices, in order, and nothing else is. -/
structure Filled (o : JsonObject) (vs : List JsonValue) : Prop where
  is_array : o.m_is_array = true
  length : o.m_members.length = vs.length
  find : ∀ key v, Assoc.find o.m_members key = some v ↔ ∃ i : Nat, vs[i]? = some v ∧ key = common_to_string i

theorem Filled.push {o : JsonObject} {vs : List JsonValue} (h : Filled o vs) (v : JsonValue) :
    Filled (o.push v) (vs ++ [v]) := by
  have hpush : (o.push v).m_members = Assoc.insert (common_to_string vs.length) v o.m_members := by
    rw [JsonObject.push, if_pos h.is_array, h.length]
    rfl
  have hnew : ∀ e ∈ o.m_members, e.1 ≠ common_to_string vs.length := by
    apply Assoc.find_eq_none.1
    rw [Option.eq_none_iff_forall_ne_some]
    intro w hw
    obtain ⟨i, hi, hkey⟩ := (h.find _ _).1 hw
    rw [← common_to_string_inj hkey, List.getElem?_eq_none (Nat.le_refl _)] at hi
    cases hi
  refine ⟨?_, ?_, ?_⟩
  · rw [JsonObject.push, if_pos h.is_array]
    exact h.is_array
  · rw [hpush, Assoc.length_insert_new hnew, h.length, List.length_append]
    rfl
  · intro key w
    rw [hpush, Assoc.find_insert]
    by_cases hkey : common_to_string vs.length = key
    · rw [if_pos hkey]
      constructor
      · rintro hv
        cases hv
        exact ⟨vs.length, List.getElem?_concat_length, hkey.symm⟩
      · rintro ⟨i, hi, hki⟩
        rw [← common_to_string_inj (hkey.trans hki), List.getElem?_concat_length] at hi
        exact hi
    · rw [if_neg hkey, h.find]
      refine exists_congr fun i => and_congr_left fun hki => ?_
      have hne : i ≠ vs.length := by
        rintro rfl
        exact hkey hki.symm
      rw [List.getElem?_append]
      split
      · rfl
      · rw [List.getElem?_eq_none (by omega), List.getElem?_eq_none (by simp; omega)]

/-- The elements of an array that was read are those of its text. -/
theorem filled_foldl_push (ws : List JsonValue) {o : JsonObject} {vs : List JsonValue} (h : Filled o vs) :
    Filled (ws.foldl JsonObject.push o) (vs ++ ws) := by
  induction ws generalizing o vs with
  | nil => simpa using h
  | cons w ws ih => simpa using ih (h.push w)

theorem Filled.getIndex {o : JsonObject} {vs : List JsonValue} (h : Filled o vs) {i : Nat} (hi : i < vs.length) :
    o.getIndex i = vs[i] := by
  have hfind := (h.find (common_to_string i) vs[i]).2 ⟨i, List.getElem?_eq_getElem hi, rfl⟩
  rw [JsonObject.getIndex, JsonObject.get, hfind]
  rfl

theorem Filled.array_size {o : JsonObject} {vs : List JsonValue} (h : Filled o vs) (hlen : vs.length < 2 ^ 31) :
    o.array_size = vs.length := by
  rw [JsonObject.array_size, if_pos h.is_array, h.length, int32_of_lt hlen]

theorem filled_nil : Filled { m_is_array := true } [] := ⟨rfl, rfl, by simp⟩

theorem length_le_commas {texts : List Bytes} {text : Bytes} (h : text ∈ texts) :
    text.length ≤ (commas texts).length := by
  induction texts with
  | nil => cases h
  | cons first texts ih =>
    cases texts with
    | nil =>
      rw [List.mem_singleton.1 h]
      exact Nat.le_refl _
    | cons next texts =>
      rw [commas, List.length_append, List.length_cons]
      rcases List.mem_cons.1 h with rfl | h
      · omega
      · have := ih h
        omega

/-- There is room for a character of every text and the commas between them. -/
theorem count_le_commas {texts : List Bytes} (h : ∀ text ∈ texts, text ≠ []) :
    2 * texts.length ≤ (commas texts).length + 1 := by
  induction texts with
  | nil => simp
  | cons first texts ih =>
    have hfirst := List.length_pos_iff.2 (h first (by simp))
    cases texts with
    | nil =>
      rw [commas, List.length_singleton]
      omega
    | cons next texts =>
      have := ih (fun text ht => h text (by simp [ht]))
      simp only [commas, List.length_append, List.length_cons] at this ⊢
      omega

/-- An array that is read has fewer elements than half the cursor's range. -/
theorem count_lt {texts : List Bytes} (h : ∀ text ∈ texts, text ≠ [])
    (hlen : (openBracket :: commas texts ++ [closeBracket]).length < 2 ^ 32) : texts.length < 2 ^ 31 := by
  have hcount := count_le_commas h
  simp only [List.length_append, List.length_cons] at hlen
  omega

/-! ## Whole trees -/

theorem length_print_members {members : List (Bytes × JsonTree)} {m : Bytes × JsonTree} (hm : m ∈ members) :
    m.2.print.length < (print (.obj members)).length := by
  have hmem : print_string m.1 ++ colon :: m.2.print ∈ print_members members := by
    rw [print_members_eq]
    exact List.mem_map_of_mem hm
  have h := length_le_commas hmem
  simp only [print, List.length_append, List.length_cons] at h ⊢
  omega

theorem length_print_elements {elements : List JsonTree} {j : JsonTree} (hj : j ∈ elements) :
    j.print.length < (print (.arr elements)).length := by
  have hmem : j.print ∈ print_elements elements := by
    rw [print_elements_eq]
    exact List.mem_map_of_mem hj
  have h := length_le_commas hmem
  simp only [print, List.length_append, List.length_cons] at h ⊢
  omega

theorem members_read {members : List (Bytes × JsonTree)} (hd : (members.map (·.1)).Nodup)
    (hkeys : ∀ m ∈ members, backslash ∉ m.1) (hvalues : ∀ m ∈ members, ∃ v, Reads m.2.print v ∧ Decodes m.2 v) :
    ∃ ms : List (Bytes × JsonValue), List.Forall₂ ReadsMember (print_members members) ms ∧
      Decodes (.obj members) (.ofObject (ms.foldl (fun o m => o.set m.1 m.2) {})) := by
  have : Nonempty JsonValue := ⟨.T_NULL⟩
  choose! v hv using hvalues
  have hd' : ((members.map fun m => (m.1, v m)).map (·.1)).Nodup := by simpa [Function.comp_def] using hd
  refine ⟨members.map fun m => (m.1, v m), ?_, .obj ?_ ?_ ?_ ?_⟩
  · rw [print_members_eq, List.forall₂_map_left_iff, List.forall₂_map_right_iff, List.forall₂_same]
    exact fun m hm => ⟨_, _, rfl, reads_print_string (hkeys m hm), (hv m hm).1⟩
  · exact foldl_set_is_array _ _
  · rw [foldl_set_members, Assoc.length_foldl_insert hd' (by simp), List.length_map]
    simp
  · intro key
    rw [find_foldl_set hd', Assoc.isSome_find]
    simp
  · intro m hm
    rw [JsonObject.get, find_foldl_set hd',
      Assoc.find_of_mem hd' (e := (m.1, v m)) (List.mem_map.2 ⟨m, hm, rfl⟩)]
    exact (hv m hm).2

theorem elements_read {elements : List JsonTree} (hlen : (print (.arr elements)).length < 2 ^ 32)
    (hvalues : ∀ j ∈ elements, ∃ v, Reads j.print v ∧ Decodes j v) :
    ∃ vs : List JsonValue, List.Forall₂ Reads (print_elements elements) vs ∧
      Decodes (.arr elements) (.ofObject (vs.foldl JsonObject.push { m_is_array := true })) := by
  have : Nonempty JsonValue := ⟨.T_NULL⟩
  choose! v hv using hvalues
  have hfill := filled_foldl_push (elements.map v) filled_nil
  rw [List.nil_append] at hfill
  have hcount : elements.length < 2 ^ 31 := by
    have hne : ∀ text ∈ print_elements elements, text ≠ [] := by
      intro text htext
      rw [print_elements_eq] at htext
      obtain ⟨j, hj, rfl⟩ := List.mem_map.1 htext
      exact (hv j hj).1.ne_nil
    have h := count_lt hne (by simpa only [print] using hlen)
    rwa [print_elements_eq, List.length_map] at h
  refine ⟨elements.map v, ?_, .arr ?_ ?_ ?_ ?_⟩
  · rw [print_elements_eq, List.forall₂_map_left_iff, List.forall₂_map_right_iff, List.forall₂_same]
    exact fun j hj => (hv j hj).1
  · rw [hfill.array_size (by rwa [List.length_map]), List.length_map]
  · rw [hfill.length, List.length_map]
  · intro key
    rw [Option.isSome_iff_exists]
    simp only [hfill.find, List.getElem?_map, Option.map_eq_some_iff]
    constructor
    · rintro ⟨w, i, ⟨j, hj, -⟩, hkey⟩
      exact ⟨i, (List.getElem?_eq_some_iff.1 hj).1, hkey⟩
    · rintro ⟨i, hi, hkey⟩
      exact ⟨_, i, ⟨elements[i], List.getElem?_eq_getElem hi, rfl⟩, hkey⟩
  · intro i hi
    rw [hfill.getIndex (by rwa [List.length_map]), List.getElem_map]
    exact (hv _ (List.getElem_mem hi)).2

/-- Every printed tree is read as itself wherever it stands. -/
theorem reads_print {j : JsonTree} (hp : j.Printable) (hlen : j.print.length < 2 ^ 32) :
    ∃ v, Reads j.print v ∧ Decodes j v := by
  induction hp with
  | @obj members hd hkeys _ ih =>
    obtain ⟨ms, hms, hdec⟩ := members_read hd hkeys fun m hm =>
      ih m hm (Nat.lt_trans (length_print_members hm) hlen)
    exact ⟨_, reads_object hms, hdec⟩
  | @arr elements _ ih =>
    obtain ⟨vs, hvs, hdec⟩ := elements_read hlen fun j hj =>
      ih j hj (Nat.lt_trans (length_print_elements hj) hlen)
    exact ⟨_, reads_array hvs, hdec⟩
  | bool b => exact ⟨_, reads_bool b, .bool b⟩
  | @num n hn =>
    refine ⟨_, reads_number hn, .num ?_⟩
    exact Int64.toInt_ofInt_of_le (by omega) (by omega)
  | @str s hs => exact ⟨_, reads_print_string hs, .str s⟩

/-- Incoming JSON is decoded faithfully. -/
theorem decoded_faithfully (j : JsonTree) (hroot : j.IsRoot) (hp : j.Printable) (hlen : j.print.length < 2 ^ 32) :
    ∃ o, read_from_string {} j.print = some o ∧ Decodes j (.ofObject o) := by
  cases hp with
  | @obj members hd hkeys hvalues =>
    obtain ⟨ms, hms, hdec⟩ := members_read hd hkeys fun m hm =>
      reads_print (hvalues m hm) (Nat.lt_trans (length_print_members hm) hlen)
    exact ⟨_, read_from_string_object hms hlen, hdec⟩
  | @arr elements hvalues =>
    obtain ⟨vs, hvs, hdec⟩ := elements_read hlen fun j hj =>
      reads_print (hvalues j hj) (Nat.lt_trans (length_print_elements hj) hlen)
    exact ⟨_, read_from_string_array hvs hlen, hdec⟩
  | bool b => exact hroot.elim
  | num _ => exact hroot.elim
  | str _ => exact hroot.elim

/-- An object with an empty array, a nested one, a control character and quotes in a key and a value. -/
def sample : JsonTree :=
  .obj [(ascii "say \"hi\"", .arr [.num 7, .arr [], .bool false]), ([10], .obj [([], .str (ascii "a/\"b\""))])]

theorem decoded_faithfully_sample :
    ∃ o, read_from_string {} sample.print = some o ∧ Decodes sample (.ofObject o) := by
  refine decoded_faithfully sample trivial ?_ (by decide +kernel)
  refine .obj (by decide +kernel) (by decide +kernel) ?_
  rw [List.forall_mem_cons, List.forall_mem_singleton]
  constructor
  · refine .arr ?_
    rw [List.forall_mem_cons, List.forall_mem_cons, List.forall_mem_singleton]
    exact ⟨.num (by decide), .arr (by simp), .bool false⟩
  · refine .obj (by decide +kernel) (by decide +kernel) ?_
    rw [List.forall_mem_singleton]
    exact .str (by decide +kernel)

end JsonTree

end RtcClient
