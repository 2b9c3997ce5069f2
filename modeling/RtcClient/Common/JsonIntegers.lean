import RtcClient.Common.Escaping
import RtcClient.Common.JsonCompleteness
import RtcClient.Common.JsonTree
import RtcClient.Common.JsonWriter
import Mathlib.Data.List.Nodup
/-!
# Integers through text and back

The reader sends a minus sign to `read_number`, which collects digits and points only. A
negative number is printed and then refused (`integer_kept_iff`).

Keys are printed as they are, so a key comes back only if it is its own escaped form.
-/

namespace RtcClient

open Lib JsonObject

namespace JsonValue

/-- The number in a value of a type that `int64_t` includes. -/
def integer : JsonValue → Option Int
  | .T_INT8 v => some v.toInt
  | .T_INT16 v => some v.toInt
  | .T_INT32 v => some v.toInt
  | .T_INT64 v => some v.toInt
  | .T_UINT8 v => some v.toNat
  | .T_UINT16 v => some v.toNat
  | .T_UINT32 v => some v.toNat
  | _ => none

theorem integer_lt {v : JsonValue} {n : Int} (h : v.integer = some n) : n < 2 ^ 63 := by
  cases v with
  | T_INT8 v => cases h; exact Int.lt_trans v.toInt_lt (by decide)
  | T_INT16 v => cases h; exact Int.lt_trans v.toInt_lt (by decide)
  | T_INT32 v => cases h; exact Int.lt_trans v.toInt_lt (by decide)
  | T_INT64 v => cases h; exact v.toInt_lt
  | T_UINT8 v => cases h; exact Int.lt_trans (Int.ofNat_lt.2 v.toNat_lt) (by decide)
  | T_UINT16 v => cases h; exact Int.lt_trans (Int.ofNat_lt.2 v.toNat_lt) (by decide)
  | T_UINT32 v => cases h; exact Int.lt_trans (Int.ofNat_lt.2 v.toNat_lt) (by decide)
  | _ => cases h

end JsonValue

section
variable (stream_double : Float → Bytes)

theorem writes_integer {v : JsonValue} {n : Int} (h : v.integer = some n) :
    Writes stream_double v (common_to_string n) := by
  unfold Writes
  cases v with
  | T_INT8 v => cases h; rw [write_value]
  | T_INT16 v => cases h; rw [write_value]
  | T_INT32 v => cases h; rw [write_value]
  | T_INT64 v => cases h; rw [write_value]
  | T_UINT8 v => cases h; rw [write_value]
  | T_UINT16 v => cases h; rw [write_value]
  | T_UINT32 v => cases h; rw [write_value]
  | _ => cases h

end

/-! ## The minus sign -/

theorem common_to_string_neg {n : Int} (h : n < 0) : ∃ digits, common_to_string n = minus :: digits := by
  obtain ⟨k, rfl⟩ := Int.eq_negSucc_of_lt_zero h
  exact ⟨common_to_string (k + 1 : Nat), common_to_string_negSucc k⟩

theorem quote_not_printed (n : Int) : quote ∉ common_to_string n := by
  have hdigits : ∀ k : Nat, quote ∉ common_to_string k := fun k hq =>
    absurd (isdigit_common_to_string k _ hq) (by decide)
  cases n with
  | ofNat k => exact hdigits k
  | negSucc k =>
    rw [common_to_string_negSucc, List.mem_cons, not_or]
    exact ⟨by decide, hdigits (k + 1)⟩

section
variable {str : Bytes} {pos : Nat} {rest : Bytes}

theorem read_minus {fuel : Nat} {result : JsonValue} (h : At str pos (minus :: rest)) (hs : str.length < 2 ^ 32) :
    read_json_key_value (fuel + 1) str result pos = .error .refused := by
  have hnumber := read_number_none h (by intro c hc; cases hc; decide) hs
  rw [read_json_key_value_at h (by decide), read_by, if_neg (by decide), if_pos (.inl rfl), hnumber]

/-- The loop over the members stops at a member whose value has a minus sign. -/
theorem item_loop_minus {fuel : Nat} {o : JsonObject} {before after : List Bytes} {ms : List (Bytes × JsonValue)}
    {key name digits : Bytes} (hbefore : List.Forall₂ ReadsMember before ms) (hkey : Reads key (.T_STRING name))
    (hs : str.length < 2 ^ 32) (h : At str pos (commas (before ++ (key ++ colon :: minus :: digits) :: after) ++ rest))
    (hf : 3 * (commas (before ++ (key ++ colon :: minus :: digits) :: after) ++ rest).length + 3 ≤ fuel) :
    item_loop false fuel o str pos = .error .refused := by
  induction hbefore generalizing pos o fuel with
  | nil =>
    obtain ⟨fuel, rfl⟩ : ∃ n, fuel = n + 1 + 1 := ⟨fuel - 2, by omega⟩
    obtain ⟨tail, htail⟩ := commas_cons (key ++ colon :: minus :: digits) after
    rw [List.nil_append, htail, List.append_assoc, List.append_assoc, List.cons_append, List.cons_append] at h hf
    simp only [List.length_append, List.length_cons] at hf
    obtain ⟨d, keytail, hhead, -, -, hd⟩ := hkey.head
    have hchar : At str pos (d :: (keytail ++ colon :: minus :: (digits ++ (tail ++ rest)))) := by
      rw [hhead] at h
      exact h
    have hreadkey : read_json_key_value (fuel + 1) str .T_UNDEFINED pos = .ok (.T_STRING name, pos + key.length) :=
      hkey.read hs h (stops_cons (by simp) _) (by simp only [List.length_append, List.length_cons]; omega)
    have hd1 := read_delimiter_dense h.advance hs (by decide) (by intro c hc; cases hc; decide)
    have hclose : d ≠ closing false := hd
    -- the key is read; the minus sign behind the colon is not
    have hname : read_name false (fuel + 1) str pos = .ok (some name, pos + key.length + 1) := by
      rw [read_name, if_neg Bool.false_ne_true, hreadkey, ok_bind]
      dsimp only
      rw [hd1, ok_bind]
      dsimp only
      rw [if_neg (fun hne => hne rfl)]
      rfl
    rw [item_loop_succ, if_neg (Nat.not_le.2 hchar.lt), hchar.char, if_neg hclose, hname, ok_bind, read_item,
      read_minus h.advance.next hs]
    rfl
  | @cons text m before ms hm hbefore ih =>
    obtain ⟨fuel, rfl⟩ : ∃ n, fuel = n + 1 := ⟨fuel - 1, by omega⟩
    -- a member without a sign: the loop goes on, and what follows its comma is not blank
    obtain ⟨next, texts, hnext, hskip⟩ : ∃ next texts,
        before ++ (key ++ colon :: minus :: digits) :: after = next :: texts ∧ ∀ rest, Dense (next ++ rest) := by
      cases hbefore with
      | nil =>
        refine ⟨_, _, rfl, fun rest => ?_⟩
        rw [List.append_assoc]
        exact hkey.dense _
      | cons hm' _ => exact ⟨_, _, rfl, hm'.dense⟩
    rw [List.cons_append, hnext, commas, List.append_assoc, List.cons_append] at h hf
    rw [hnext] at ih
    have hdense : Dense (commas (next :: texts) ++ rest) := by
      obtain ⟨tail, htail⟩ := commas_cons next texts
      rw [htail, List.append_assoc]
      exact hskip _
    simp only [List.length_append, List.length_cons] at hf
    have hitem : ReadsItem false text (some m.1, m.2) := ⟨rfl, hm⟩
    rw [item_loop_step hitem hs h (.inl rfl) hdense (by simp only [List.length_append, List.length_cons]; omega),
      if_neg (by decide)]
    exact ih h.advance.next (by simp only [List.length_append]; omega)

end

/-- So does the whole text of the object. -/
theorem read_from_string_minus {before after : List Bytes} {ms : List (Bytes × JsonValue)} {key name digits : Bytes}
    (hbefore : List.Forall₂ ReadsMember before ms) (hkey : Reads key (.T_STRING name))
    (hs : (openBrace :: commas (before ++ (key ++ colon :: minus :: digits) :: after) ++ [closeBrace]).length <
      2 ^ 32) :
    read_from_string {}
      (openBrace :: commas (before ++ (key ++ colon :: minus :: digits) :: after) ++ [closeBrace]) = none := by
  rw [List.cons_append] at hs ⊢
  generalize hbody : commas (before ++ (key ++ colon :: minus :: digits) :: after) ++ [closeBrace] = body at hs ⊢
  obtain ⟨pos, hpos, hread⟩ := read_text_opening false {} blank_nil hs
  change At (openBrace :: body) pos (openBrace :: body) at hpos
  change read_text {} (openBrace :: body) =
    read_group false (fuelFor (openBrace :: body)) {} (openBrace :: body) pos at hread
  have hfuel : fuelFor (openBrace :: body) = 3 * body.length + 5 + 1 := by
    rw [fuelFor, List.length_cons]
    omega
  have hnext : At (openBrace :: body) (pos + 1)
      (commas (before ++ (key ++ colon :: minus :: digits) :: after) ++ [closeBrace]) := by
    rw [hbody]
    exact hpos.next
  have henough : 3 * (commas (before ++ (key ++ colon :: minus :: digits) :: after) ++ [closeBrace]).length + 3 ≤
      3 * body.length + 5 := by
    rw [hbody]
    omega
  have hloop := item_loop_minus (o := {}) hbefore hkey hs hnext henough
  have hleft : ¬ (openBrace :: body).length < 2 := by
    rw [← hbody]
    simp
  have hopen : ¬ openBrace ≠ opening false := fun hne => hne rfl
  rw [read_from_string, hread, hfuel, read_group_succ, hpos.left hs, if_neg hleft, hpos.char, if_neg hopen,
    hpos.next.uint32 hs, if_neg Bool.false_ne_true, hloop]

/-! ## Keys -/

/-- The reader takes the key for what it is. -/
def KeyKept (key : Bytes) : Prop := Closes key ∧ unescape_string key = key

theorem KeyKept.reads {key : Bytes} (h : KeyKept key) : Reads (quote :: key ++ [quote]) (.T_STRING key) := by
  have hread := reads_closed h.1
  rw [h.2] at hread
  exact hread

/-- A key without quotes and backslashes is kept. -/
theorem keyKept_plain {key : Bytes} (hq : quote ∉ key) (hb : backslash ∉ key) : KeyKept key :=
  ⟨closes_plain hq hb, unescape_plain hb⟩

/-- What stands between two quotes is no longer than the key, since the last quote is the one behind it. -/
theorem between_quotes {key tail before raw behind : Bytes} (htail : quote ∉ tail)
    (h : openBrace :: quote :: (key ++ quote :: tail) = before ++ quote :: (raw ++ quote :: behind)) :
    raw.length ≤ key.length ∧ (raw.length = key.length → raw = key) := by
  cases before with
  | nil => exact absurd (List.cons.inj h).1 (by decide)
  | cons b before =>
    have h' : quote :: (key ++ quote :: tail) = before ++ quote :: (raw ++ quote :: behind) := (List.cons.inj h).2
    have hbound : before.length + raw.length ≤ key.length := by
      by_contra hlong
      -- the second quote would be in the tail
      have hleft : (quote :: (key ++ quote :: tail))[before.length + raw.length + 1]? =
          tail[before.length + raw.length - key.length - 1]? := by
        rw [List.getElem?_cons_succ, List.getElem?_append_right (by omega),
          show before.length + raw.length - key.length = before.length + raw.length - key.length - 1 + 1 by omega,
          List.getElem?_cons_succ]
        rfl
      have hright : (before ++ quote :: (raw ++ quote :: behind))[before.length + raw.length + 1]? = some quote := by
        rw [List.getElem?_append_right (by omega),
          show before.length + raw.length + 1 - before.length = raw.length + 1 by omega, List.getElem?_cons_succ,
          List.getElem?_append_right (Nat.le_refl _), Nat.sub_self]
        rfl
      rw [← h', hleft] at hright
      exact htail (List.mem_of_getElem? hright)
    refine ⟨by omega, fun heq => ?_⟩
    obtain rfl : before = [] := List.length_eq_zero_iff.1 (by omega)
    exact (List.append_inj (List.cons.inj h').2 heq.symm).1.symm

theorem name_in_text {n : Name} : ∀ items : Items, n ∈ items.names →
    ∃ before behind, items.text = before ++ quote :: (n.raw ++ quote :: behind)
  | .empty, h => by cases h
  | .last name term gap, h => by
    obtain rfl : name = some n := by simpa [Items.names] using h
    exact ⟨[], n.before ++ colon :: (n.behind ++ (term.text ++ gap)), by simp [Items.text, name_text]⟩
  | .more name term gap gap' items, h => by
    rw [Items.names, List.mem_append] at h
    rcases h with h | h
    · obtain rfl : name = some n := by simpa using h
      exact ⟨[], n.before ++ colon :: (n.behind ++ (term.text ++ (gap ++ comma :: (gap' ++ items.text)))),
        by simp [Items.text, name_text]⟩
    · obtain ⟨before, behind, htext⟩ := name_in_text items h
      exact ⟨name_text name ++ (term.text ++ (gap ++ comma :: (gap' ++ before))), behind, by simp [Items.text, htext]⟩

theorem name_wellFormed {m_is_array : Bool} {n : Name} : ∀ items : Items, items.WellFormed m_is_array →
    n ∈ items.names → n.WellFormed
  | .empty, _, h => by cases h
  | .last name term gap, hwf, h => by
    obtain rfl : name = some n := by simpa [Items.names] using h
    exact hwf.1.2
  | .more name term gap gap' items, hwf, h => by
    rw [Items.names, List.mem_append] at h
    rcases h with h | h
    · obtain rfl : name = some n := by simpa using h
      exact hwf.1.2
    · exact name_wellFormed items hwf.2.2.2.2 h

/-- A member that is found was there or has a name in the text. -/
theorem find_fill {key : Bytes} : ∀ (items : Items) (o : JsonObject), items.WellFormed false →
    (Assoc.find (items.fill o).m_members key).isSome →
      (Assoc.find o.m_members key).isSome ∨ ∃ n ∈ items.names, n.key = key
  | .empty, _, _, h => .inl h
  | .last name term gap, o, hwf, h => by
    cases name with
    | none => cases hwf.1
    | some n =>
      rw [Items.fill, Option.map_some, add, JsonObject.set, Assoc.find_insert] at h
      split at h
      · rename_i hkey
        exact .inr ⟨n, by simp [Items.names], hkey⟩
      · exact .inl h
  | .more name term gap gap' items, o, hwf, h => by
    cases name with
    | none => cases hwf.1
    | some n =>
      rcases find_fill items _ hwf.2.2.2.2 h with h | ⟨n', hn', hkey⟩
      · rw [Option.map_some, add, JsonObject.set, Assoc.find_insert] at h
        split at h
        · rename_i hkey
          exact .inr ⟨n, by simp [Items.names], hkey⟩
        · exact .inl h
      · exact .inr ⟨n', by simp [Items.names, hn'], hkey⟩

/-- A key that comes back, from the text of an object with nothing else in it, is kept. -/
theorem keyKept_of_found {key tail : Bytes} {o : JsonObject} (htail : quote ∉ tail)
    (hs : (openBrace :: quote :: (key ++ quote :: tail)).length < 2 ^ 32)
    (hread : read_from_string {} (openBrace :: quote :: (key ++ quote :: tail)) = some o)
    (hfound : (Assoc.find o.m_members key).isSome) : KeyKept key := by
  obtain ⟨⟨lead, m_is_array, gap, items, rest, hlead, hwf, htext⟩, -, rfl⟩ := exists_layout hread hs
  have hfirst : lead = [] ∧ m_is_array = false := by
    cases lead with
    | nil =>
      refine ⟨rfl, ?_⟩
      cases m_is_array with
      | true => exact absurd (List.cons.inj htext).1 (by decide)
      | false => rfl
    | cons c lead =>
      have hc := hlead c (by simp)
      rw [← (List.cons.inj htext).1] at hc
      exact absurd hc (by decide)
  obtain ⟨rfl, rfl⟩ := hfirst
  obtain hnone | ⟨n, hn, rfl⟩ := find_fill items {} hwf.2 hfound
  · cases hnone
  · obtain ⟨before, behind, hitems⟩ := name_in_text items hn
    obtain ⟨hclose, -, -⟩ := name_wellFormed items hwf.2 hn
    have hsplit : openBrace :: quote :: (n.key ++ quote :: tail) =
        (openBrace :: (gap ++ before)) ++ quote :: (n.raw ++ quote :: (behind ++ closeBrace :: rest)) := by
      rw [htext, Term.text, hitems]
      simp [opening, closing]
    obtain ⟨hle, hsame⟩ := between_quotes htail hsplit
    have hlength := (length_unescape n.raw).1
    have hkey : n.raw = n.key := hsame (Nat.le_antisymm hle hlength)
    rw [KeyKept, ← hkey]
    exact ⟨hclose, hkey.symm⟩

/-! ## Members -/

section
variable (stream_double : Float → Bytes)

/-- The value can be written, and the reader makes a value of the text. -/
def Readable (v : JsonValue) : Prop := ∃ text w, Writes stream_double v text ∧ Reads text w

/-- The member comes back as an integer with the same value. -/
def IntegerKept (ms : List (Bytes × JsonValue)) (key : Bytes) (n : Int) : Prop :=
  ∃ text o i, (JsonObject.write_to_string stream_double ⟨ms, false⟩).1 = some text ∧ read_from_string {} text = some o ∧
    o.get key = .T_INT64 i ∧ (o.get key).as_int64.toInt = n

theorem readable_members {ms : List (Bytes × JsonValue)} (h : ∀ m ∈ ms, KeyKept m.1 ∧ Readable stream_double m.2) :
    ∃ texts ms', List.Forall₂ (WritesMember stream_double) ms texts ∧ List.Forall₂ ReadsMember texts ms' ∧
      ms'.map (·.1) = ms.map (·.1) := by
  induction ms with
  | nil => exact ⟨[], [], .nil, .nil, rfl⟩
  | cons m ms ih =>
    obtain ⟨hkey, text, w, hwrites, hreads⟩ := h m (by simp)
    obtain ⟨texts, ms', hw, hr, hkeys⟩ := ih fun m' hm' => h m' (by simp [hm'])
    refine ⟨_ :: texts, (m.1, w) :: ms', .cons ⟨text, rfl, hwrites⟩ hw, .cons ⟨_, _, rfl, hkey.reads, hreads⟩ hr, ?_⟩
    rw [List.map_cons, List.map_cons, hkeys]

/-- A member with the others around it. -/
structure Around (ms : List (Bytes × JsonValue)) (key : Bytes) (v : JsonValue) where
  before : List (Bytes × JsonValue)
  after : List (Bytes × JsonValue)
  split : ms = before ++ (key, v) :: after
  keys : ((before ++ (key, v) :: after).map (·.1)).Nodup
  readBefore : ∀ m ∈ before, KeyKept m.1 ∧ Readable stream_double m.2
  readAfter : ∀ m ∈ after, KeyKept m.1 ∧ Readable stream_double m.2

theorem exists_around {ms : List (Bytes × JsonValue)} {key : Bytes} {v : JsonValue} (hsorted : Assoc.Sorted ms)
    (hmem : (key, v) ∈ ms) (hothers : ∀ m ∈ ms, m.1 ≠ key → KeyKept m.1 ∧ Readable stream_double m.2) :
    Nonempty (Around stream_double ms key v) := by
  obtain ⟨before, after, rfl⟩ := List.append_of_mem hmem
  have hkeys := hsorted.nodup
  have hne : ∀ m ∈ before ++ after, m.1 ≠ key := by
    have hcopy := hkeys
    rw [List.map_append, List.map_cons, List.nodup_middle, List.nodup_cons, ← List.map_append] at hcopy
    intro m hm heq
    exact hcopy.1 (List.mem_map.2 ⟨m, hm, heq⟩)
  exact ⟨⟨before, after, rfl, hkeys, fun m hm => hothers m (by simp [hm]) (hne m (by simp [hm])),
    fun m hm => hothers m (by simp [hm]) (hne m (by simp [hm]))⟩⟩

section
variable {ms : List (Bytes × JsonValue)} {key : Bytes} {v : JsonValue} {n : Int}

/-- A number that is not negative is printed in digits, which are read. -/
theorem integer_kept_nonneg (hmembers : Around stream_double ms key v) (hv : v.integer = some n)
    (hlen : ∀ text ∈ (JsonObject.write_to_string stream_double ⟨ms, false⟩).1, text.length < 2 ^ 32)
    (hkey : KeyKept key) (hn : 0 ≤ n) : IntegerKept stream_double ms key n := by
  obtain ⟨k, rfl⟩ := Int.eq_ofNat_of_zero_le hn
  have hlt : k < 2 ^ 63 := by
    have := JsonValue.integer_lt hv
    omega
  obtain ⟨before, after, rfl, hkeys, hbefore, hafter⟩ := hmembers
  obtain ⟨texts, ms', hw, hr, hk⟩ := readable_members stream_double hbefore
  obtain ⟨texts', ms'', hw', hr', hk'⟩ := readable_members stream_double hafter
  have hmember : WritesMember stream_double (key, v) (quote :: key ++ [quote] ++ colon :: common_to_string k) :=
    ⟨_, rfl, writes_integer stream_double hv⟩
  have hwrite := write_to_string_object stream_double (List.rel_append hw (.cons hmember hw'))
  have hmember' : ReadsMember (quote :: key ++ [quote] ++ colon :: common_to_string k)
      (key, .T_INT64 (Int64.ofInt k)) := ⟨_, _, rfl, hkey.reads, reads_number hlt⟩
  have hread := read_from_string_object (o := {}) (List.rel_append hr (.cons hmember' hr')) (hlen _ hwrite)
  have hd : ((ms' ++ (key, .T_INT64 (Int64.ofInt k)) :: ms'').map (·.1)).Nodup := by
    rw [List.map_append, List.map_cons] at hkeys ⊢
    rw [hk, hk']
    exact hkeys
  have hget : (List.foldl (fun o m => o.set m.1 m.2) ({} : JsonObject)
      (ms' ++ (key, .T_INT64 (Int64.ofInt k)) :: ms'')).get key = .T_INT64 (Int64.ofInt k) := by
    rw [JsonObject.get, JsonTree.find_foldl_set hd,
      Assoc.find_of_mem hd (e := (key, .T_INT64 (Int64.ofInt k))) (by simp)]
    rfl
  refine ⟨_, _, Int64.ofInt k, hwrite, hread, hget, ?_⟩
  rw [hget, JsonValue.as_int64]
  exact Int64.toInt_ofInt_of_le (by omega) (by omega)

/-- A negative one is refused at its minus sign. -/
theorem integer_lost_neg (hmembers : Around stream_double ms key v) (hv : v.integer = some n)
    (hlen : ∀ text ∈ (JsonObject.write_to_string stream_double ⟨ms, false⟩).1, text.length < 2 ^ 32)
    (hkey : KeyKept key) (hn : n < 0) : ¬ IntegerKept stream_double ms key n := by
  obtain ⟨before, after, rfl, -, hbefore, hafter⟩ := hmembers
  obtain ⟨texts, ms', hw, hr, -⟩ := readable_members stream_double hbefore
  obtain ⟨texts', ms'', hw', -, -⟩ := readable_members stream_double hafter
  obtain ⟨digits, hdigits⟩ := common_to_string_neg hn
  have hmember : WritesMember stream_double (key, v) (quote :: key ++ [quote] ++ colon :: minus :: digits) :=
    ⟨_, rfl, by rw [← hdigits]; exact writes_integer stream_double hv⟩
  have hwrite := write_to_string_object stream_double (List.rel_append hw (.cons hmember hw'))
  rintro ⟨text, o, i, htext, hread, -⟩
  rw [hwrite] at htext
  cases htext
  rw [read_from_string_minus hr hkey.reads (hlen _ hwrite)] at hread
  cases hread

/-- The key of an object with one member is kept if the member comes back. -/
theorem keyKept_of_integerKept (hv : v.integer = some n)
    (hlen : ∀ text ∈ (JsonObject.write_to_string stream_double ⟨[(key, v)], false⟩).1, text.length < 2 ^ 32)
    (h : IntegerKept stream_double [(key, v)] key n) : KeyKept key := by
  have hmember : WritesMember stream_double (key, v) (quote :: key ++ [quote] ++ colon :: common_to_string n) :=
    ⟨_, rfl, writes_integer stream_double hv⟩
  have hwrite := write_to_string_object stream_double (.cons hmember .nil)
  obtain ⟨text, o, i, htext, hread, hget, -⟩ := h
  have hlen' := hlen _ hwrite
  rw [hwrite] at htext
  cases htext
  have hshape : openBrace :: commas [quote :: key ++ [quote] ++ colon :: common_to_string n] ++ [closeBrace] =
      openBrace :: quote :: (key ++ quote :: (colon :: (common_to_string n ++ [closeBrace]))) := by simp [commas]
  rw [hshape] at hread hlen'
  refine keyKept_of_found ?_ hlen' hread ?_
  · rw [List.mem_cons, List.mem_append, List.mem_singleton]
    rintro (hq | hq | hq)
    · exact absurd hq (by decide)
    · exact quote_not_printed n hq
    · exact absurd hq (by decide)
  · rw [JsonObject.get] at hget
    cases hfind : Assoc.find o.m_members key with
    | none =>
      rw [hfind] at hget
      cases hget
    | some w => rfl

/-- Whether a number comes back that is stored under a key of an object. Where the key is kept, as are those of the
other members, which can be read, it comes back if it is not negative; and where there is no other member, the key has
to be kept. -/
theorem integer_kept_iff (hsorted : Assoc.Sorted ms) (hv : v.integer = some n) (hmem : (key, v) ∈ ms)
    (hothers : ∀ m ∈ ms, m.1 ≠ key → KeyKept m.1 ∧ Readable stream_double m.2)
    (hlen : ∀ text ∈ (JsonObject.write_to_string stream_double ⟨ms, false⟩).1, text.length < 2 ^ 32) :
    (KeyKept key → (IntegerKept stream_double ms key n ↔ 0 ≤ n)) ∧
      (ms = [(key, v)] → (IntegerKept stream_double ms key n ↔ 0 ≤ n ∧ KeyKept key)) := by
  obtain ⟨hmembers⟩ := exists_around stream_double hsorted hmem hothers
  have hkept : KeyKept key → (IntegerKept stream_double ms key n ↔ 0 ≤ n) := by
    intro hkey
    constructor
    · intro h
      by_contra hn
      exact integer_lost_neg stream_double hmembers hv hlen hkey (Int.not_le.1 hn) h
    · exact integer_kept_nonneg stream_double hmembers hv hlen hkey
  refine ⟨hkept, ?_⟩
  rintro rfl
  constructor
  · intro h
    have hkey := keyKept_of_integerKept stream_double hv hlen h
    exact ⟨(hkept hkey).1 h, hkey⟩
  · rintro ⟨hn, hkey⟩
    exact (hkept hkey).2 hn

end

end

/-! ### Numbers -/

/-- A byte, beside a member that is `true`. -/
def byte_members : List (Bytes × JsonValue) := [(ascii "a", .T_BOOL true), (ascii "k", .T_UINT8 200)]

theorem integer_kept_byte :
    (KeyKept (ascii "k") → (IntegerKept (fun _ => []) byte_members (ascii "k") 200 ↔ (0 : Int) ≤ 200)) ∧
      (byte_members = [(ascii "k", .T_UINT8 200)] →
        (IntegerKept (fun _ => []) byte_members (ascii "k") 200 ↔ (0 : Int) ≤ 200 ∧ KeyKept (ascii "k"))) := by
  apply integer_kept_iff
  · exact List.pairwise_pair.2 (by decide)
  · rfl
  · exact List.mem_cons_of_mem _ (List.mem_singleton.2 rfl)
  · unfold byte_members
    rw [List.forall_mem_cons, List.forall_mem_singleton]
    refine ⟨fun _ => ⟨keyKept_plain (by decide) (by decide), ?_⟩, fun h => absurd rfl h⟩
    exact ⟨common_to_string_bool true, .T_BOOL true, by rw [Writes, write_value], reads_bool true⟩
  · have hwrite : (JsonObject.write_to_string (fun _ => []) ⟨byte_members, false⟩).1 =
        some (ascii "\x7b\"a\":true,\"k\":200\x7d") := by decide +kernel
    intro text htext
    rw [hwrite] at htext
    cases htext
    decide

/-- The number -5 under the key `k`. -/
theorem minus_five_refused :
    (JsonObject.write_to_string (fun _ => []) ⟨[(ascii "k", .T_INT64 (-5))], false⟩).1 =
        some (ascii "\x7b\"k\":-5\x7d") ∧
      read_from_string {} (ascii "\x7b\"k\":-5\x7d") = none ∧
      ¬ IntegerKept (fun _ => []) [(ascii "k", .T_INT64 (-5))] (ascii "k") (-5) := by
  have hwrite : (JsonObject.write_to_string (fun _ => []) ⟨[(ascii "k", .T_INT64 (-5))], false⟩).1 =
      some (ascii "\x7b\"k\":-5\x7d") := by decide +kernel
  have hnone : read_from_string {} (ascii "\x7b\"k\":-5\x7d") = none :=
    Option.isNone_iff_eq_none.1 (by decide +kernel)
  refine ⟨hwrite, hnone, ?_⟩
  rintro ⟨text, o, i, htext, hread, -⟩
  rw [hwrite] at htext
  cases htext
  rw [hnone] at hread
  cases hread

end RtcClient
