import RtcClient.Common.JsonGroups
import Mathlib.Data.List.Forall2
/-!
# Reading what was printed

`Reads text v`: wherever the text stands, followed by something that does not go on
the token, the reader takes the value `v` from it and stops right behind it. There is
one such lemma for each kind of token, and objects and arrays are read as their
members are.
-/

namespace RtcClient.JsonObject

open Lib

/-! ## Escaped strings -/

/-- The escape sequences of `escape_string`, the backslash's apart. -/
def escapes : Escapes := [(9, 116), (13, 114), (10, 110), (12, 102), (8, 98), (quote, quote), (slash, slash)]

/-- A property of each escape sequence is checked by evaluation. -/
theorem all_escapes {P : UInt8 × UInt8 → Prop} [DecidablePred P] {escapes : Escapes}
    (h : escapes.all (fun p => decide (P p)) = true) : ∀ p ∈ escapes, P p := by
  simpa using h

theorem flatMap_escape_nil (s : Bytes) : s.flatMap (escape_char []) = s := by
  induction s with
  | nil => rfl
  | cons c s ih => rw [List.flatMap_cons, ih]; rfl

theorem escape_string_eq {s : Bytes} (h : backslash ∉ s) : escape_string s = s.flatMap (escape_char escapes) := by
  unfold escape_string
  dsimp only
  rw [string_replace_absent h]
  conv_lhs => rw [← flatMap_escape_nil s]
  -- the passes for the seven other characters
  iterate 7 rw [string_replace_escape (by decide) (all_escapes (by decide))]
  rfl

/-- The same in the order in which `unescape_string` undoes them. -/
def unescapes : Escapes := [(slash, slash), (quote, quote), (8, 98), (12, 102), (10, 110), (13, 114), (9, 116)]

theorem escape_char_order : escape_char escapes = escape_char unescapes := by
  funext d
  simp only [escapes, unescapes, quote, slash, escape_char]
  split_ifs <;> simp_all

theorem unescape_plain {s : Bytes} (h : backslash ∉ s) : unescape_string s = s := by
  unfold unescape_string
  dsimp only
  iterate 8 rw [string_replace_absent h]

/-- The eight passes of `unescape_string` undo those of `escape_string`. -/
theorem unescape_escape {s : Bytes} (h : backslash ∉ s) : unescape_string (escape_string s) = s := by
  rw [escape_string_eq h, escape_char_order]
  unfold unescape_string unescapes
  dsimp only
  iterate 7 rw [string_replace_unescape (all_escapes (by decide)) h]
  rw [flatMap_escape_nil, string_replace_absent h]

/-! ## Tokens -/

/-- No token goes on here: the text ends, or there is neither whitespace nor a digit nor a point. -/
def Stops (rest : Bytes) : Prop := ∀ c ∈ rest.head?, isBlank c = false ∧ isdigit c = false ∧ c ≠ point

theorem Stops.dense {rest : Bytes} (h : Stops rest) : Dense rest := fun c hc => (h c hc).1

theorem Stops.not_numeric {rest : Bytes} (h : Stops rest) : NotNumeric rest := by
  intro c hc
  obtain ⟨-, hdigit, hpoint⟩ := h c hc
  simp [numeric, hdigit, hpoint]

section
variable {str : Bytes} {pos : Nat} {rest : Bytes}

/-- The way a string's characters are written hides quotes behind a backslash, and no other backslash
stands before a quote. -/
def Quotable (escapes : Escapes) (s : Bytes) : Prop :=
  ∀ d ∈ s, (∃ e, e ≠ backslash ∧ escape_char escapes d = [backslash, e]) ∨
    (escape_char escapes d = [d] ∧ d ≠ quote ∧ d ≠ backslash)

/-- So the search for the closing quote stops behind them. -/
theorem Quotable.closes {escapes : Escapes} {s : Bytes} (hq : Quotable escapes s) :
    Closes (s.flatMap (escape_char escapes)) := by
  have hbody : ∀ c, c ≠ backslash → Hidden (c :: s.flatMap (escape_char escapes)) ∧
      (c :: s.flatMap (escape_char escapes)).getLast? ≠ some backslash := by
    induction s with
    | nil => exact fun c hc => ⟨List.IsChain.singleton c, fun hlast => hc (Option.some.inj hlast)⟩
    | cons d s ih =>
      have ih' := ih fun e he => hq e (by simp [he])
      intro c _
      rw [List.flatMap_cons]
      rcases hq d (by simp) with ⟨e, he, hd⟩ | ⟨hd, hne, hback⟩
      · obtain ⟨hhidden, hlast⟩ := ih' e he
        rw [hd, List.cons_append, List.cons_append, List.nil_append, List.getLast?_cons_cons, List.getLast?_cons_cons]
        refine ⟨?_, hlast⟩
        exact List.isChain_cons_cons.2 ⟨fun h => absurd h (by decide), List.isChain_cons_cons.2 ⟨fun _ => rfl, hhidden⟩⟩
      · obtain ⟨hhidden, hlast⟩ := ih' d hback
        rw [hd, List.cons_append, List.nil_append, List.getLast?_cons_cons]
        exact ⟨List.isChain_cons_cons.2 ⟨fun h => absurd h hne, hhidden⟩, hlast⟩
  exact hbody quote (by decide)

theorem read_number_printed {n : Nat} (hn : n < 2 ^ 63) (h : At str pos (common_to_string n ++ rest))
    (hrest : Stops rest) (hs : str.length < 2 ^ 32) :
    read_number str pos = .ok (.T_INT64 (Int64.ofInt n), pos + (common_to_string n).length) := by
  have hdigits := isdigit_common_to_string n
  have hnumeric : ∀ c ∈ common_to_string n, numeric c = true := fun c hc => by rw [numeric, hdigits c hc, Bool.true_or]
  have hpoint : point ∉ common_to_string n := fun hp => absurd (hdigits point hp) (by decide)
  rw [read_number_numeric (common_to_string_ne_nil n) hnumeric h hrest.not_numeric hs, number_value, if_neg hpoint,
    string_to_long_common_to_string hn]

theorem read_bool_printed {b : Bool} (h : At str pos (common_to_string_bool b ++ rest)) (hs : str.length < 2 ^ 32) :
    read_bool str pos (common_to_string_bool b) =
      .ok (.T_BOOL b, pos + (common_to_string_bool b).length) := by
  have hword : string_to_lower (common_to_string_bool b) = common_to_string_bool b := by cases b <;> decide
  have hval : decide (common_to_string_bool b = ascii "true") = b := by cases b <;> decide
  rw [read_bool_word hword h hs, hval]

end

/-! ## Values -/

/-- A value's text: it begins with a character that neither is skipped nor closes anything. -/
structure Reads (text : Bytes) (v : JsonValue) : Prop where
  head : ∃ c tail, text = c :: tail ∧ isBlank c = false ∧ c ≠ closeBracket ∧ c ≠ closeBrace
  read : ∀ {str : Bytes} {pos : Nat} {rest : Bytes} {fuel : Nat}, str.length < 2 ^ 32 → At str pos (text ++ rest) →
    Stops rest → 3 * (text ++ rest).length + 2 ≤ fuel →
    read_json_key_value fuel str .T_UNDEFINED pos = .ok (v, pos + text.length)

section
variable {str : Bytes} {pos : Nat} {rest : Bytes}

theorem Reads.dense {text : Bytes} {v : JsonValue} (h : Reads text v) (rest : Bytes) : Dense (text ++ rest) := by
  obtain ⟨c, tail, rfl, hc, -⟩ := h.head
  intro d hd
  cases hd
  exact hc

theorem Reads.ne_nil {text : Bytes} {v : JsonValue} (h : Reads text v) : text ≠ [] := by
  obtain ⟨c, tail, rfl, -⟩ := h.head
  exact List.cons_ne_nil _ _

/-- Closing quotes, brackets, commas and colons stop a token. -/
theorem stops_cons {c : UInt8} (hc : c = comma ∨ c = colon ∨ c = closeBracket ∨ c = closeBrace) (rest : Bytes) :
    Stops (c :: rest) := by
  intro d hd
  cases hd
  rcases hc with rfl | rfl | rfl | rfl <;> decide

theorem stops_nil : Stops [] := by
  intro d hd
  cases hd

/-- A string that closes. -/
theorem reads_closed {raw : Bytes} (hraw : Closes raw) :
    Reads (quote :: raw ++ [quote]) (.T_STRING (unescape_string raw)) where
  head := ⟨quote, _, rfl, by decide, by decide, by decide⟩
  read := by
    intro str pos rest fuel hs h _ hf
    obtain ⟨fuel, rfl⟩ : ∃ n, fuel = n + 1 := ⟨fuel - 1, by omega⟩
    have hat : At str pos (quote :: (raw ++ quote :: rest)) := by simpa using h
    rw [read_json_key_value_at hat (by decide), read_by, if_pos rfl, read_string_closed hraw hat hs]
    simp only [List.cons_append, List.length_cons, List.length_append, List.length_nil]
    rw [show pos + (raw.length + (0 + 1) + 1) = pos + raw.length + 2 by omega]

theorem quotable_escapes {s : Bytes} (h : backslash ∉ s) : Quotable escapes s := by
  intro d hd
  rcases escape_char_cases escapes d with ⟨he, hplain⟩ | ⟨p, hp, -, he⟩
  · refine .inr ⟨he, ?_, ?_⟩
    · exact (hplain (quote, quote) (by decide)).symm
    · rintro rfl
      exact h hd
  · have hnot : ∀ p ∈ escapes, p.2 ≠ backslash := all_escapes (by decide)
    exact .inl ⟨p.2, hnot p hp, he⟩

theorem reads_escaped {s : Bytes} (h : backslash ∉ s) : Reads (quote :: escape_string s ++ [quote]) (.T_STRING s) := by
  have hread := reads_closed (quotable_escapes h).closes
  rw [← escape_string_eq h, unescape_escape h] at hread
  exact hread

/-- A key is not escaped. -/
theorem reads_plain {s : Bytes} (hq : quote ∉ s) (hb : backslash ∉ s) :
    Reads (quote :: s ++ [quote]) (.T_STRING s) := by
  have hread := reads_closed (closes_plain hq hb)
  rw [unescape_plain hb] at hread
  exact hread

theorem reads_number {n : Nat} (hn : n < 2 ^ 63) : Reads (common_to_string n) (.T_INT64 (Int64.ofInt n)) := by
  obtain ⟨c, tail, htext⟩ := List.exists_cons_of_ne_nil (common_to_string_ne_nil n)
  have hdigit : isdigit c = true := isdigit_common_to_string n c (by simp [htext])
  have hfirst := digit_first hdigit
  refine ⟨⟨c, tail, htext, hfirst⟩, ?_⟩
  intro str pos rest fuel hs h hrest hf
  obtain ⟨fuel, rfl⟩ : ∃ n, fuel = n + 1 := ⟨fuel - 1, by omega⟩
  have h' := h
  rw [htext] at h'
  rw [read_json_key_value_at h' hfirst.1, read_by, if_neg (isdigit_ne hdigit (by decide)), if_pos (.inr hdigit),
    read_number_printed hn h hrest hs]

theorem reads_bool (b : Bool) : Reads (common_to_string_bool b) (.T_BOOL b) := by
  cases b with
  | false =>
    refine ⟨⟨102, ascii "alse", by decide, by decide, by decide, by decide⟩, ?_⟩
    intro str pos rest fuel hs h _ hf
    obtain ⟨fuel, rfl⟩ : ∃ n, fuel = n + 1 := ⟨fuel - 1, by omega⟩
    have h' : At str pos (102 :: (ascii "alse" ++ rest)) := h
    rw [read_json_key_value_at h' (by decide), read_by_false (.inl rfl)]
    exact read_bool_printed h hs
  | true =>
    refine ⟨⟨116, ascii "rue", by decide, by decide, by decide, by decide⟩, ?_⟩
    intro str pos rest fuel hs h _ hf
    obtain ⟨fuel, rfl⟩ : ∃ n, fuel = n + 1 := ⟨fuel - 1, by omega⟩
    have h' : At str pos (116 :: (ascii "rue" ++ rest)) := h
    rw [read_json_key_value_at h' (by decide), read_by_true (.inl rfl)]
    exact read_bool_printed h hs

end

/-! ## Objects and arrays -/

/-- The texts with a comma between any two. -/
def commas : List Bytes → Bytes
  | [] => []
  | [text] => text
  | text :: next :: texts => text ++ comma :: commas (next :: texts)

/-- A member is its key as a string, a colon and the value. -/
def ReadsMember (text : Bytes) (m : Bytes × JsonValue) : Prop :=
  ∃ key value, text = key ++ colon :: value ∧ Reads key (.T_STRING m.1) ∧ Reads value m.2

/-- What stands between brackets of either kind: members, or values without a name. -/
def ReadsItem (m_is_array : Bool) (text : Bytes) (x : Option Bytes × JsonValue) : Prop :=
  match x.1 with
  | none => m_is_array = true ∧ Reads text x.2
  | some name => m_is_array = false ∧ ReadsMember text (name, x.2)

theorem ReadsItem.first {m_is_array : Bool} {text : Bytes} {x : Option Bytes × JsonValue}
    (h : ReadsItem m_is_array text x) :
    ∃ c tail, text = c :: tail ∧ isBlank c = false ∧ c ≠ closing m_is_array := by
  obtain ⟨name, v⟩ := x
  cases name with
  | none =>
    obtain ⟨rfl, hread⟩ := h
    obtain ⟨c, tail, htext, hblank, hbracket, -⟩ := hread.head
    exact ⟨c, tail, htext, hblank, hbracket⟩
  | some name =>
    obtain ⟨rfl, key, value, rfl, hkey, -⟩ := h
    obtain ⟨c, tail, rfl, hblank, -, hbrace⟩ := hkey.head
    exact ⟨c, tail ++ colon :: value, rfl, hblank, hbrace⟩

theorem ReadsItem.dense {m_is_array : Bool} {text : Bytes} {x : Option Bytes × JsonValue}
    (h : ReadsItem m_is_array text x) (rest : Bytes) : Dense (text ++ rest) := by
  obtain ⟨c, tail, rfl, hc, -⟩ := h.first
  intro d hd
  cases hd
  exact hc

theorem commas_cons (text : Bytes) (texts : List Bytes) : ∃ tail, commas (text :: texts) = text ++ tail := by
  cases texts with
  | nil => exact ⟨[], (List.append_nil text).symm⟩
  | cons next texts => exact ⟨_, rfl⟩

section
variable {m_is_array : Bool} {str : Bytes} {pos : Nat} {rest : Bytes}

/-- The name of an item is read up to the value. -/
theorem ReadsItem.name {text : Bytes} {x : Option Bytes × JsonValue} {fuel : Nat} (hx : ReadsItem m_is_array text x)
    (hs : str.length < 2 ^ 32) (h : At str pos (text ++ rest)) (hf : 3 * (text ++ rest).length + 2 ≤ fuel) :
    ∃ before value, text = before ++ value ∧ Reads value x.2 ∧
      read_name m_is_array fuel str pos = .ok (x.1, pos + before.length) := by
  obtain ⟨name, v⟩ := x
  cases name with
  | none =>
    obtain ⟨rfl, hread⟩ := hx
    exact ⟨[], text, rfl, hread, rfl⟩
  | some name =>
    obtain ⟨rfl, key, value, rfl, hkey, hvalue⟩ := hx
    have hkeyat : At str pos (key ++ colon :: (value ++ rest)) := by
      simpa only [List.append_assoc, List.cons_append] using h
    have hfuel : 3 * (key ++ colon :: (value ++ rest)).length + 2 ≤ fuel := by
      simpa only [List.append_assoc, List.cons_append] using hf
    have hread := hkey.read hs hkeyat (stops_cons (.inr (.inl rfl)) _) hfuel
    have hdelimiter := read_delimiter_dense hkeyat.advance hs (by decide) (hvalue.dense rest)
    refine ⟨key ++ [colon], value, by simp, hvalue, ?_⟩
    rw [read_name, if_neg Bool.false_ne_true, hread, ok_bind]
    dsimp only
    rw [hdelimiter, ok_bind]
    dsimp only
    rw [if_neg (fun hne => hne rfl), List.length_append]
    rfl

/-- One round of the loop, up to the character behind the value. -/
theorem item_loop_step {fuel : Nat} {o : JsonObject} {text : Bytes} {x : Option Bytes × JsonValue} {c : UInt8}
    (hx : ReadsItem m_is_array text x) (hs : str.length < 2 ^ 32) (h : At str pos (text ++ c :: rest))
    (hc : c = comma ∨ c = closing m_is_array) (hrest : Dense rest) (hf : 3 * (text ++ c :: rest).length + 2 ≤ fuel) :
    item_loop m_is_array (fuel + 1) o str pos =
      (if c = closing m_is_array then .ok (o.add x.1 x.2, pos + text.length + 1)
        else item_loop m_is_array fuel (o.add x.1 x.2) str (pos + text.length + 1)) := by
  have hsep : isBlank c = false ∧ (c = comma ∨ c = colon ∨ c = closeBracket ∨ c = closeBrace) := by
    rcases hc with rfl | rfl
    · decide
    · cases m_is_array <;> decide
  obtain ⟨d, tail, htext, -, hd⟩ := hx.first
  have hchar : At str pos (d :: (tail ++ c :: rest)) := by
    rw [htext] at h
    exact h
  obtain ⟨before, value, rfl, hvalue, hname⟩ := hx.name hs h hf
  rw [List.append_assoc] at h hf
  simp only [List.length_append, List.length_cons] at hf
  have hread := hvalue.read hs h.advance (stops_cons hsep.2 rest) (show 3 * (value ++ c :: rest).length + 2 ≤ fuel by
    simp only [List.length_append, List.length_cons]
    omega)
  have hdelimiter := read_delimiter_dense h.advance.advance hs hsep.1 hrest
  rw [item_loop_succ, if_neg (Nat.not_le.2 hchar.lt), hchar.char, if_neg hd, hname, ok_bind, read_item]
  dsimp only
  rw [hread, ok_bind]
  dsimp only
  rw [hdelimiter, ok_bind, List.length_append, ← Nat.add_assoc]
  dsimp only
  -- a comma is compared with the closing bracket first
  rcases hc with rfl | rfl
  · have hne : comma ≠ closing m_is_array := by cases m_is_array <;> decide
    rw [if_neg hne, if_pos rfl, if_neg hne]
  · rw [if_pos rfl, if_pos rfl]
    rfl

/-- The whole loop: a step for each item. -/
theorem item_loop_read {texts : List Bytes} {xs : List (Option Bytes × JsonValue)} {fuel : Nat} {o : JsonObject}
    (hall : List.Forall₂ (ReadsItem m_is_array) texts xs) (hs : str.length < 2 ^ 32)
    (h : At str pos (commas texts ++ closing m_is_array :: rest)) (hrest : Stops rest)
    (hf : 3 * (commas texts ++ closing m_is_array :: rest).length + 3 ≤ fuel) :
    item_loop m_is_array fuel o str pos =
      .ok (xs.foldl (fun o x => o.add x.1 x.2) o, pos + (commas texts).length + 1) := by
  induction hall generalizing pos o fuel with
  | nil =>
    obtain ⟨fuel, rfl⟩ : ∃ n, fuel = n + 1 := ⟨fuel - 1, by omega⟩
    have hclose : At str pos (closing m_is_array :: rest) := h
    rw [item_loop_succ, if_neg (Nat.not_le.2 hclose.lt), hclose.char, if_pos rfl, hclose.next.uint32 hs]
    rfl
  | @cons text x texts xs hfirst hall ih =>
    obtain ⟨fuel, rfl⟩ : ∃ n, fuel = n + 1 := ⟨fuel - 1, by omega⟩
    cases hall with
    | nil =>
      rw [item_loop_step hfirst hs h (.inr rfl) hrest.dense (by unfold commas at hf; omega), if_pos rfl]
      rfl
    | @cons next x' texts xs hnext hall =>
      have hne : comma ≠ closing m_is_array := by cases m_is_array <;> decide
      have hlater : Dense (commas (next :: texts) ++ closing m_is_array :: rest) := by
        obtain ⟨tail, htail⟩ := commas_cons next texts
        rw [htail, List.append_assoc]
        exact hnext.dense _
      unfold commas at h hf ⊢
      rw [List.append_assoc, List.cons_append] at h hf
      have hafter := h.advance.next
      simp only [List.length_append, List.length_cons] at hf
      rw [item_loop_step hfirst hs h (.inl rfl) hlater (by simp only [List.length_append, List.length_cons]; omega),
        if_neg hne, ih hafter (by simp only [List.length_append, List.length_cons]; omega)]
      simp only [List.foldl_cons, List.length_append, List.length_cons]
      rw [show pos + text.length + 1 + (commas (next :: texts)).length + 1 =
        pos + (text.length + ((commas (next :: texts)).length + 1)) + 1 by omega]

theorem read_group_read {texts : List Bytes} {xs : List (Option Bytes × JsonValue)} {fuel : Nat} {o : JsonObject}
    (hall : List.Forall₂ (ReadsItem m_is_array) texts xs) (hs : str.length < 2 ^ 32)
    (h : At str pos (opening m_is_array :: (commas texts ++ closing m_is_array :: rest))) (hrest : Stops rest)
    (hf : 3 * (commas texts ++ closing m_is_array :: rest).length + 4 ≤ fuel) :
    read_group m_is_array fuel o str pos =
      .ok (xs.foldl (fun o x => o.add x.1 x.2) (if m_is_array then { o with m_is_array := true } else o),
        pos + (commas texts).length + 2) := by
  obtain ⟨fuel, rfl⟩ : ∃ n, fuel = n + 1 := ⟨fuel - 1, by omega⟩
  have hleft : ¬ (opening m_is_array :: (commas texts ++ closing m_is_array :: rest)).length < 2 := by
    simp only [List.length_cons, List.length_append]
    omega
  have hopen : ¬ opening m_is_array ≠ opening m_is_array := fun hne => hne rfl
  rw [read_group_succ, h.left hs, if_neg hleft, h.char, if_neg hopen, h.next.uint32 hs,
    item_loop_read hall hs h.next hrest (by omega),
    show pos + 1 + (commas texts).length + 1 = pos + (commas texts).length + 2 by omega]

/-- Brackets are read if what stands between them is. -/
theorem reads_group {texts : List Bytes} {xs : List (Option Bytes × JsonValue)}
    (hall : List.Forall₂ (ReadsItem m_is_array) texts xs) :
    Reads (opening m_is_array :: commas texts ++ [closing m_is_array])
      (.ofObject (xs.foldl (fun o x => o.add x.1 x.2) { m_is_array := m_is_array })) where
  head := ⟨opening m_is_array, _, rfl, opening_not_blank m_is_array, by cases m_is_array <;> decide,
    by cases m_is_array <;> decide⟩
  read := by
    intro str pos rest fuel hs h hrest hf
    obtain ⟨fuel, rfl⟩ : ∃ n, fuel = n + 1 := ⟨fuel - 1, by omega⟩
    have hat : At str pos (opening m_is_array :: (commas texts ++ closing m_is_array :: rest)) := by
      simpa using h
    have hfuel : 3 * (commas texts ++ closing m_is_array :: rest).length + 4 ≤ fuel := by
      simp only [List.cons_append, List.length_cons, List.length_append, List.length_nil] at hf ⊢
      omega
    rw [read_json_key_value_at hat (opening_not_blank m_is_array), read_by_group,
      read_group_read hall hs hat hrest hfuel, ok_bind]
    simp only [List.cons_append, List.length_cons, List.length_append, List.length_nil]
    cases m_is_array <;> rfl

/-- The text of an object or an array is read whole. -/
theorem read_from_string_group {texts : List Bytes} {xs : List (Option Bytes × JsonValue)} {o : JsonObject}
    (hall : List.Forall₂ (ReadsItem m_is_array) texts xs)
    (hs : (opening m_is_array :: commas texts ++ [closing m_is_array]).length < 2 ^ 32) :
    o.read_from_string (opening m_is_array :: commas texts ++ [closing m_is_array]) =
      some (xs.foldl (fun o x => o.add x.1 x.2) (if m_is_array then { o with m_is_array := true } else o)) := by
  have hlen : ([] ++ opening m_is_array :: (commas texts ++ [closing m_is_array])).length < 2 ^ 32 := hs
  obtain ⟨pos, hpos, hread⟩ := read_text_opening m_is_array o blank_nil hlen
  have hfuel : 3 * (commas texts ++ [closing m_is_array]).length + 4 ≤
      fuelFor ([] ++ opening m_is_array :: (commas texts ++ [closing m_is_array])) := by
    simp only [fuelFor, List.length_append, List.length_cons, List.nil_append, List.length_nil]
    omega
  have hgroup := read_group_read (o := o) hall hlen hpos stops_nil hfuel
  rw [hgroup] at hread
  have htext : opening m_is_array :: commas texts ++ [closing m_is_array] =
      [] ++ opening m_is_array :: (commas texts ++ [closing m_is_array]) := rfl
  rw [htext, read_from_string, hread]

/-! ### Objects -/

theorem ReadsMember.dense {text : Bytes} {m : Bytes × JsonValue} (hm : ReadsMember text m) (rest : Bytes) :
    Dense (text ++ rest) := by
  obtain ⟨key, value, rfl, hkey, -⟩ := hm
  rw [List.append_assoc]
  exact hkey.dense _

theorem items_of_members {texts : List Bytes} {members : List (Bytes × JsonValue)}
    (hm : List.Forall₂ ReadsMember texts members) :
    List.Forall₂ (ReadsItem false) texts (members.map fun m => (some m.1, m.2)) :=
  List.forall₂_map_right_iff.2 (hm.imp fun _ _ h => ⟨rfl, h⟩)

theorem reads_object {texts : List Bytes} {members : List (Bytes × JsonValue)}
    (hm : List.Forall₂ ReadsMember texts members) :
    Reads (openBrace :: commas texts ++ [closeBrace])
      (.ofObject (members.foldl (fun o m => o.set m.1 m.2) {})) := by
  have h := reads_group (items_of_members hm)
  rw [List.foldl_map] at h
  exact h

theorem read_from_string_object {texts : List Bytes} {members : List (Bytes × JsonValue)} {o : JsonObject}
    (hm : List.Forall₂ ReadsMember texts members)
    (hs : (openBrace :: commas texts ++ [closeBrace]).length < 2 ^ 32) :
    o.read_from_string (openBrace :: commas texts ++ [closeBrace]) =
      some (members.foldl (fun o m => o.set m.1 m.2) o) := by
  have h := read_from_string_group (o := o) (items_of_members hm) hs
  rw [List.foldl_map] at h
  exact h

/-! ### Arrays -/

theorem items_of_values {texts : List Bytes} {values : List JsonValue} (hv : List.Forall₂ Reads texts values) :
    List.Forall₂ (ReadsItem true) texts (values.map fun v => (none, v)) :=
  List.forall₂_map_right_iff.2 (hv.imp fun _ _ h => ⟨rfl, h⟩)

theorem reads_array {texts : List Bytes} {values : List JsonValue} (hv : List.Forall₂ Reads texts values) :
    Reads (openBracket :: commas texts ++ [closeBracket])
      (.ofObject (values.foldl push { m_is_array := true })) := by
  have h := reads_group (items_of_values hv)
  rw [List.foldl_map] at h
  exact h

theorem read_from_string_array {texts : List Bytes} {values : List JsonValue} {o : JsonObject}
    (hv : List.Forall₂ Reads texts values)
    (hs : (openBracket :: commas texts ++ [closeBracket]).length < 2 ^ 32) :
    o.read_from_string (openBracket :: commas texts ++ [closeBracket]) =
      some (values.foldl push { o with m_is_array := true }) := by
  have h := read_from_string_group (o := o) (items_of_values hv) hs
  rw [List.foldl_map] at h
  exact h

end

end RtcClient.JsonObject
