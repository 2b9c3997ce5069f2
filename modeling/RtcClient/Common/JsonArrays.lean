import RtcClient.Common.JsonTree
import RtcClient.Common.JsonValues
import RtcClient.Common.JsonWriter
import Mathlib.Data.List.Nodup
import Mathlib.Tactic.IntervalCases
/-!
# Arrays through text and back

The elements of an array are members whose keys are the decimal indices, and the map
orders them as texts: 10 comes before 2. The reader numbers them as they come. So an
array of 1 to 10 elements keeps its order, and no other does; and it comes back as it was
if each of its elements does by itself (`array_kept_iff`).
-/

namespace RtcClient

open Lib JsonObject JsonTree

/-! ## The order of the indices -/

/-- The key of an index, with the index. -/
def index_key (i : Nat) : Bytes × Nat := (common_to_string i, i)

/-- The keys of an array of `n` elements in the order of the map, each with its index. -/
def sorted_keys (n : Nat) : List (Bytes × Nat) :=
  ((List.range n).map index_key).foldl (fun l e => Assoc.insert e.1 e.2 l) []

/-- The indices in the order in which the elements are written. -/
def emission (n : Nat) : List Nat := (sorted_keys n).map (·.2)

theorem keys_nodup (n : Nat) : (((List.range n).map index_key).map (·.1)).Nodup := by
  rw [List.map_map]
  exact List.Nodup.map (fun i j h => common_to_string_inj h) List.nodup_range

theorem sorted_keys_perm (n : Nat) : (sorted_keys n).Perm ((List.range n).map index_key) := by
  have h := Assoc.foldl_insert_perm (keys_nodup n) (fun _ _ _ hd => absurd hd List.not_mem_nil)
  rwa [List.append_nil] at h

theorem mem_sorted_keys {n : Nat} {e : Bytes × Nat} (h : e ∈ sorted_keys n) :
    e.1 = common_to_string e.2 ∧ e.2 < n := by
  obtain ⟨i, hi, rfl⟩ := List.mem_map.1 ((sorted_keys_perm n).mem_iff.1 h)
  exact ⟨rfl, List.mem_range.1 hi⟩

theorem emission_perm (n : Nat) : (emission n).Perm (List.range n) := by
  have h := (sorted_keys_perm n).map (·.2)
  rwa [List.map_map, show (·.2) ∘ index_key = id from rfl, List.map_id] at h

/-- The keys of an array are in the order of the indices only up to ten elements. -/
theorem sorted_keys_range (n : Nat) :
    (sorted_keys n).map (·.1) = (List.range n).map (fun i : Nat => common_to_string i) ↔ n ≤ 10 := by
  constructor
  · intro h
    by_contra hn
    have hsorted : Assoc.Sorted (sorted_keys n) := Assoc.sorted_foldl_insert _ List.Pairwise.nil
    have hpairs : (List.range n).Pairwise (fun i j : Nat => common_to_string i < common_to_string j) := by
      rw [← List.pairwise_map, ← h, List.pairwise_map]
      exact hsorted
    have hlt := List.pairwise_iff_getElem.1 hpairs 9 10 (by simp; omega) (by simp; omega) (by decide)
    rw [List.getElem_range, List.getElem_range] at hlt
    exact absurd hlt (by decide)
  · intro hn
    interval_cases n <;> decide +kernel

/-! ## Storing and writing -/

section
variable (stream_double : Float → Bytes)

/-- A value that can be serialised, with its text. -/
structure Serialised where
  value : JsonValue
  text : Bytes
  writes : Writes stream_double value text

variable {stream_double}

/-- `operator[]` with 0, 1, … assigned to, on a fresh object. -/
def store (values : List JsonValue) : JsonObject :=
  values.zipIdx.foldl (fun o e => o.setIndex e.2 e.1) {}

theorem store_is_array {values : List JsonValue} (h : values ≠ []) : (store values).m_is_array = true := by
  obtain ⟨v, rest, rfl⟩ := List.exists_cons_of_ne_nil h
  have hkept : ∀ (es : List (JsonValue × Nat)) (o : JsonObject), o.m_is_array = true →
      (es.foldl (fun o e => o.setIndex e.2 e.1) o).m_is_array = true := by
    intro es
    induction es with
    | nil => exact fun _ ho => ho
    | cons e es ih => exact fun _ _ => ih _ rfl
  rw [store, List.zipIdx_cons, List.foldl_cons]
  exact hkept _ _ rfl

/-- The members of the array: the values in the order of the keys. -/
theorem store_members (values : List JsonValue) :
    (store values).m_members =
      (sorted_keys values.length).map (fun e => (e.1, values.getD e.2 .T_UNDEFINED)) := by
  have hzip : values.zipIdx = (List.range values.length).map (fun i => (values.getD i .T_UNDEFINED, i)) := by
    apply List.ext_getElem
    · simp
    · intro i h1 h2
      simp only [List.length_zipIdx] at h1
      simp [List.getElem?_eq_getElem h1]
  have hfold : (store values).m_members =
      values.zipIdx.foldl (fun l e => Assoc.insert (common_to_string e.2) e.1 l) [] :=
    (List.foldl_hom JsonObject.m_members (fun _ _ => rfl)).symm
  have hmap := Assoc.foldl_insert_map (fun i => values.getD i .T_UNDEFINED)
    ((List.range values.length).map index_key) []
  rw [hfold, hzip, List.foldl_map, sorted_keys, ← hmap, List.map_map, List.foldl_map]
  rfl

/-- The values are visited in the order of their indices when the array is written. -/
def EmitsInOrder (values : List JsonValue) : Prop :=
  (store values).m_members.map (·.1) = (List.range values.length).map (fun i : Nat => common_to_string i)

theorem emits_in_order_iff (values : List JsonValue) : EmitsInOrder values ↔ values.length ≤ 10 := by
  rw [EmitsInOrder, store_members, List.map_map]
  exact sorted_keys_range values.length

/-- The elements of an array in the order in which they are written. -/
def emitted {A : Type} (items : List A) : List A := (emission items.length).filterMap (items[·]?)

theorem emitted_map {A B : Type} (f : A → B) (items : List A) : emitted (items.map f) = (emitted items).map f := by
  unfold emitted
  rw [List.length_map, List.map_filterMap]
  simp

theorem emission_lt {n i : Nat} (h : i ∈ emission n) : i < n := by
  obtain ⟨e, he, rfl⟩ := List.mem_map.1 h
  exact (mem_sorted_keys he).2

/-- Nothing is lost and nothing comes twice. -/
theorem emitted_perm {A : Type} (items : List A) : (emitted items).Perm items := by
  have hrange : (List.range items.length).filterMap (items[·]?) = items := by
    induction items with
    | nil => rfl
    | cons a items ih =>
      rw [List.length_cons, List.range_succ_eq_map, List.filterMap_cons, List.filterMap_map]
      exact congrArg (a :: ·) ih
  have h := (emission_perm items.length).filterMap (items[·]?)
  rwa [hrange] at h

theorem length_emitted {A : Type} (items : List A) : (emitted items).length = items.length :=
  (emitted_perm items).length_eq

theorem emitted_eq_map (values : List JsonValue) :
    emitted values = (emission values.length).map (fun i => values.getD i .T_UNDEFINED) := by
  refine List.filterMap_eq_map_iff_forall_eq_some.2 fun i hi => ?_
  simp [List.getElem?_eq_getElem (emission_lt hi)]

/-- The values of the members in the order of the map. -/
theorem store_values (values : List JsonValue) : (store values).m_members.map (·.2) = emitted values := by
  rw [store_members, List.map_map, emitted_eq_map, emission, List.map_map]
  rfl

/-- Up to ten elements are written in order. -/
theorem emitted_of_le {values : List JsonValue} (h : values.length ≤ 10) : emitted values = values := by
  have hkeys : (emission values.length).map (fun i : Nat => common_to_string i) =
      (List.range values.length).map (fun i : Nat => common_to_string i) := by
    rw [← (sorted_keys_range _).2 h, emission, List.map_map]
    exact List.map_congr_left fun e he => (mem_sorted_keys he).1.symm
  have hinj : Function.Injective (fun i : Nat => common_to_string i) := fun i j hij => common_to_string_inj hij
  rw [emitted_eq_map, List.map_injective_iff.2 hinj hkeys]
  apply List.ext_getElem
  · simp
  · intro i h1 h2
    simp [List.getElem?_eq_getElem h2]

/-- The texts of the members of an array. -/
theorem store_texts {A : Type} {items : List A} {value : A → JsonValue} {text : A → Bytes}
    (h : ∀ a ∈ items, Writes stream_double (value a) (text a)) :
    List.Forall₂ (fun m t => Writes stream_double m.2 t) (store (items.map value)).m_members
      (emitted (items.map text)) := by
  have hvalues : List.Forall₂ (Writes stream_double) ((store (items.map value)).m_members.map (·.2))
      (emitted (items.map text)) := by
    rw [store_values, emitted_map, emitted_map, List.forall₂_map_left_iff, List.forall₂_map_right_iff,
      List.forall₂_same]
    exact fun a ha => h a ((emitted_perm items).mem_iff.1 ha)
  exact List.forall₂_map_left_iff.1 hvalues

/-- The text of an array: the texts of its elements in the order of the keys. -/
theorem write_store {items : List (Serialised stream_double)} (h : items ≠ []) :
    ((store (items.map (·.value))).write_to_string stream_double).1 =
      some (openBracket :: commas (emitted (items.map (·.text))) ++ [closeBracket]) := by
  have hne : items.map (·.value) ≠ [] := by simpa using h
  have harray := store_is_array hne
  have htexts := store_texts fun (item : Serialised stream_double) (_ : item ∈ items) => item.writes
  generalize store (items.map (·.value)) = o at harray htexts
  obtain ⟨ms, m_is_array⟩ := o
  obtain rfl : m_is_array = true := harray
  exact write_to_string_array stream_double htexts

/-- The text of the array is read as an array of as many elements, and each is the value that was stored there, in the
type the reader has for integers. -/
def ReadsBack (items : List (Serialised stream_double)) : Prop :=
  ∃ text o, ((store (items.map (·.value))).write_to_string stream_double).1 = some text ∧
    read_from_string {} text = some o ∧ o.array_size = items.length ∧
    ∀ (i : Nat) (h : i < items.length), o.getIndex i = items[i].value.widen

/-- The element's own text is read as the element, whatever stands around it. -/
def Restored (item : Serialised stream_double) : Prop := Reads item.text item.value.widen

/-- An array of no elements is not even an array. -/
theorem not_reads_back_nil : ¬ ReadsBack ([] : List (Serialised stream_double)) := by
  rintro ⟨text, o, hwrite, hread, hsize, -⟩
  obtain rfl : text = openBrace :: commas [] ++ [closeBrace] := (Option.some.inj hwrite).symm
  have hmembers : List.Forall₂ ReadsMember [] [] := .nil
  rw [read_from_string_object hmembers (by decide)] at hread
  cases hread
  have hnot : (-1 : Int) = 0 := hsize
  cases hnot

/-- If each text is read, the array is, with the elements in the order in which they were written. -/
theorem read_store {items : List (Serialised stream_double)} {read : Serialised stream_double → JsonValue}
    (hreads : ∀ item ∈ items, Reads item.text (read item))
    (hlen : (openBracket :: commas (emitted (items.map (·.text))) ++ [closeBracket]).length < 2 ^ 32) :
    ∃ o, read_from_string {} (openBracket :: commas (emitted (items.map (·.text))) ++ [closeBracket]) = some o ∧
      o.array_size = items.length ∧ Filled o (emitted (items.map read)) := by
  have hemitted : ∀ item ∈ emitted items, Reads item.text (read item) :=
    fun item hitem => hreads item ((emitted_perm items).mem_iff.1 hitem)
  have hall : List.Forall₂ Reads (emitted (items.map (·.text))) (emitted (items.map read)) := by
    rw [emitted_map, emitted_map, List.forall₂_map_left_iff, List.forall₂_map_right_iff, List.forall₂_same]
    exact hemitted
  have hne : ∀ text ∈ emitted (items.map (·.text)), text ≠ [] := by
    rw [emitted_map]
    intro text htext
    obtain ⟨item, hitem, rfl⟩ := List.mem_map.1 htext
    exact (hemitted item hitem).ne_nil
  have hcount := count_lt hne hlen
  rw [length_emitted, List.length_map] at hcount
  have hfilled := filled_foldl_push (emitted (items.map read)) filled_nil
  refine ⟨_, read_from_string_array hall hlen, ?_, hfilled⟩
  rw [hfilled.array_size] <;> rw [List.nil_append, length_emitted, List.length_map]
  exact hcount

/-- What comes back is what was read from each text, in the order in which they were written. -/
theorem reads_back_iff_read {items : List (Serialised stream_double)} {read : Serialised stream_double → JsonValue}
    (hreads : ∀ item ∈ items, Reads item.text (read item))
    (hlen : ∀ text ∈ ((store (items.map (·.value))).write_to_string stream_double).1, text.length < 2 ^ 32) :
    ReadsBack items ↔ 0 < items.length ∧ emitted (items.map read) = items.map (·.value.widen) := by
  cases hitems : items with
  | nil => exact iff_of_false not_reads_back_nil (by simp)
  | cons item rest =>
    rw [← hitems]
    have hne : items ≠ [] := by simp [hitems]
    have hwrite := write_store hne
    obtain ⟨o, hread, hsize, hfilled⟩ := read_store hreads (hlen _ hwrite)
    have hlength : (emitted (items.map read)).length = items.length := by rw [length_emitted, List.length_map]
    constructor
    · rintro ⟨text, o', hwrite', hread', -, helements⟩
      rw [hwrite] at hwrite'
      cases hwrite'
      rw [hread] at hread'
      cases hread'
      refine ⟨List.length_pos_iff.2 hne, List.ext_getElem (by rw [hlength, List.length_map]) fun i h1 h2 => ?_⟩
      rw [← hfilled.getIndex h1, helements i (by omega), List.getElem_map]
    · rintro ⟨-, heq⟩
      refine ⟨_, o, hwrite, hread, hsize, fun i hi => ?_⟩
      rw [hfilled.getIndex (by omega), List.getElem_of_eq heq, List.getElem_map]

/-- What comes back is what values come from texts. -/
theorem ReadsBack.legible {items : List (Serialised stream_double)} (h : ReadsBack items)
    (hlen : ∀ text ∈ ((store (items.map (·.value))).write_to_string stream_double).1, text.length < 2 ^ 32) :
    ∀ item ∈ items, Legible item.value.widen := by
  obtain ⟨text, o, hwrite, hread, -, helements⟩ := h
  intro item hitem
  obtain ⟨i, hi, rfl⟩ := List.mem_iff_getElem.1 hitem
  rw [← helements i hi]
  exact legible_read (hlen text hwrite) hread _

/-- If up to ten settled elements come back, each does by itself. -/
theorem ReadsBack.restored {items : List (Serialised stream_double)} (h : ReadsBack items) (hten : items.length ≤ 10)
    (hsettled : ∀ item ∈ items, Settled stream_double item.value)
    (hlen : ∀ text ∈ ((store (items.map (·.value))).write_to_string stream_double).1, text.length < 2 ^ 32) :
    ∀ item ∈ items, Restored item := by
  have hreads : ∀ item ∈ items, ∃ w, Reads item.text w := fun item hitem =>
    (settled stream_double item.value (hsettled item hitem) item.writes).resolve_right
      (not_not_intro (h.legible hlen item hitem))
  -- what comes back is in the order of the indices, so each element comes back as what its own text is read as
  have : Nonempty JsonValue := ⟨.T_UNDEFINED⟩
  choose! read hread using hreads
  have heq := ((reads_back_iff_read hread hlen).1 h).2
  rw [emitted_of_le (by rwa [List.length_map])] at heq
  intro item hitem
  rw [Restored, ← List.map_inj_left.1 heq item hitem]
  exact hread item hitem

/-- Arrays of 1 to 10 elements that each come back by themselves are written in order and come back. Longer ones are
not written in order, and where it can be told from each element's own text whether it comes back, each of them has to.
A longer array comes back right if the values do not show the order in which they were written. -/
theorem array_kept_iff (items : List (Serialised stream_double))
    (hlen : ∀ text ∈ ((store (items.map (·.value))).write_to_string stream_double).1, text.length < 2 ^ 32) :
    (EmitsInOrder (items.map (·.value)) ∧ ReadsBack items → 0 < items.length ∧ items.length ≤ 10) ∧
      ((0 < items.length ∧ items.length ≤ 10) ∧ (∀ item ∈ items, Restored item) →
        EmitsInOrder (items.map (·.value)) ∧ ReadsBack items) ∧
      ((∀ item ∈ items, Settled stream_double item.value) →
        (EmitsInOrder (items.map (·.value)) ∧ ReadsBack items ↔
          (0 < items.length ∧ items.length ≤ 10) ∧ ∀ item ∈ items, Restored item)) ∧
      ((∀ item ∈ items, Restored item) →
        (ReadsBack items ↔ 0 < items.length ∧ emitted (items.map (·.value.widen)) = items.map (·.value.widen))) := by
  have hlength : EmitsInOrder (items.map (·.value)) ∧ ReadsBack items → 0 < items.length ∧ items.length ≤ 10 := by
    rw [emits_in_order_iff, List.length_map]
    rintro ⟨hten, hback⟩
    -- without elements the text is that of an object
    refine ⟨List.length_pos_iff.2 ?_, hten⟩
    rintro rfl
    exact not_reads_back_nil hback
  have hback : (∀ item ∈ items, Restored item) →
      (ReadsBack items ↔ 0 < items.length ∧ emitted (items.map (·.value.widen)) = items.map (·.value.widen)) :=
    fun hrestored => reads_back_iff_read hrestored hlen
  have hkept : (0 < items.length ∧ items.length ≤ 10) ∧ (∀ item ∈ items, Restored item) →
      EmitsInOrder (items.map (·.value)) ∧ ReadsBack items := by
    rintro ⟨⟨hpos, hten⟩, hrestored⟩
    rw [emits_in_order_iff, List.length_map]
    exact ⟨hten, (hback hrestored).2 ⟨hpos, emitted_of_le (by rwa [List.length_map])⟩⟩
  refine ⟨hlength, hkept, fun hsettled => ⟨fun h => ?_, hkept⟩, hback⟩
  exact ⟨hlength h, h.2.restored (hlength h).2 hsettled hlen⟩

end

/-! ### Numbers -/

/-- A number as an element. -/
def number (n : Nat) (h : n < 2 ^ 63) : Serialised (fun _ => []) where
  value := .T_INT64 (Int64.ofInt n)
  text := common_to_string n
  writes := by
    have hi : (Int64.ofInt n).toInt = n := Int64.toInt_ofInt_of_le (by omega) (by omega)
    unfold Writes write_value
    rw [hi]

theorem restored_number {n : Nat} (h : n < 2 ^ 63) : Restored (number n h) := by
  rw [Restored, number, JsonValue.widen]
  exact reads_number h

def pair : List (Serialised (fun _ => [])) := [number 7 (by decide), number 5 (by decide)]

theorem pair_kept :
    (EmitsInOrder (pair.map (·.value)) ∧ ReadsBack pair) ∧
      (EmitsInOrder (pair.map (·.value)) ∧ ReadsBack pair ↔
        (0 < pair.length ∧ pair.length ≤ 10) ∧ ∀ item ∈ pair, Restored item) := by
  have hrestored : ∀ item ∈ pair, Restored item := by
    intro item hitem
    simp only [pair, List.mem_cons, List.not_mem_nil, or_false] at hitem
    rcases hitem with rfl | rfl <;> exact restored_number (by decide)
  have hsettled : ∀ item ∈ pair, Settled (fun _ => []) item.value := by
    intro item hitem
    simp only [pair, List.mem_cons, List.not_mem_nil, or_false] at hitem
    rcases hitem with rfl | rfl <;> trivial
  have hkept := array_kept_iff pair (by
    intro text htext
    rw [write_store (by decide +kernel)] at htext
    cases htext
    decide +kernel)
  exact ⟨hkept.2.1 ⟨by decide, hrestored⟩, hkept.2.2.1 hsettled⟩

/-- The numbers from 0 to 10, each at its index. -/
def eleven : List (Serialised (fun _ => [])) :=
  (List.range 11).attach.map fun i => number i.1 (Nat.lt_trans (List.mem_range.1 i.2) (by decide))

/-- They come back as 0, 1, 10, 2, … -/
theorem eleven_out_of_order : ¬ (EmitsInOrder (eleven.map (·.value)) ∧ ReadsBack eleven) ∧ ¬ ReadsBack eleven := by
  have hrestored : ∀ item ∈ eleven, Reads item.text item.value.widen := by
    intro item hitem
    obtain ⟨i, -, rfl⟩ := List.mem_map.1 hitem
    exact restored_number _
  have hnot : ¬ ReadsBack eleven := by
    rw [reads_back_iff_read hrestored]
    · rintro ⟨-, heq⟩
      exact absurd (congrArg (List.map JsonValue.as_string) heq) (by decide +kernel)
    · intro text htext
      rw [write_store (by decide +kernel)] at htext
      cases htext
      decide +kernel
  exact ⟨fun h => hnot h.2, hnot⟩

end RtcClient
