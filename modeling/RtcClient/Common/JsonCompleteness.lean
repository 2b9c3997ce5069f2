import RtcClient.Common.JsonSoundness
/-!
# What is well formed is read

A reader that stands before the text of a well-formed tree, with whitespace anywhere
between its tokens, gives the tree's value, and refuses the text if there is whitespace
between the brackets of an empty pair.
-/

namespace RtcClient.JsonObject

open Lib

/-- The value is read if the condition holds, up to whitespace behind it, and nothing is read otherwise. -/
def Outcome {A : Type} (str rest : Bytes) (tight : Prop) (value : A) : Except Stop (A × Nat) → Prop
  | .ok (v, next) => tight ∧ v = value ∧ ∃ after, At str next after ∧ skip after = skip rest
  | .error _ => ¬ tight

def Term.Complete (t : Term) : Prop :=
  ∀ {str pos g rest fuel}, str.length < 2 ^ 32 → Blank g → At str pos (g ++ (t.text ++ rest)) → NotNumeric rest →
    3 * (g ++ (t.text ++ rest)).length + 2 ≤ fuel →
    Outcome str rest t.Tight t.value (read_json_key_value fuel str .T_UNDEFINED pos)

def Items.Complete (m_is_array : Bool) (items : Items) : Prop :=
  ∀ {str pos g rest fuel o}, str.length < 2 ^ 32 → Blank g →
    At str pos (g ++ (items.text ++ closing m_is_array :: rest)) →
    3 * (g ++ (items.text ++ closing m_is_array :: rest)).length + 3 ≤ fuel →
    Outcome str rest ((items = .empty → g = []) ∧ items.Tight) (items.fill o) (item_loop m_is_array fuel o str pos)

/-! ## First characters -/

theorem lower_eq {c d : UInt8} (h : (if 65 ≤ c ∧ c ≤ 90 then c + 32 else c) = d) : c = d ∨ c = d - 32 := by
  split at h
  · right
    rw [← h, UInt8.add_sub_cancel]
  · exact .inl h

/-- A word begins with the first letter of what it is in small letters. -/
theorem first_letter {w tail : Bytes} {d : UInt8} (h : string_to_lower w = d :: tail) :
    ∃ c rest, w = c :: rest ∧ (c = d ∨ c = d - 32) := by
  cases w with
  | nil => cases h
  | cons c rest => exact ⟨c, rest, rfl, lower_eq (List.cons.inj h).1⟩

/-- A term begins with a character that is neither skipped nor closes anything. -/
theorem Term.WellFormed.first {t : Term} (h : t.WellFormed) :
    ∃ c tail, t.text = c :: tail ∧ isBlank c = false ∧ c ≠ closeBracket ∧ c ≠ closeBrace := by
  cases t with
  | string raw => exact ⟨quote, raw ++ [quote], rfl, by decide, by decide, by decide⟩
  | number digits =>
    obtain ⟨c, tail, rfl, hc, -⟩ := h
    exact ⟨c, tail, rfl, digit_first hc⟩
  | word letters =>
    have hfirst : ∃ c tail, letters = c :: tail ∧ (c = 116 ∨ c = 84 ∨ c = 102 ∨ c = 70 ∨ c = 110 ∨ c = 78) := by
      rw [Term.WellFormed, List.mem_cons, List.mem_cons, List.mem_singleton] at h
      rcases h with h | h | h <;> obtain ⟨c, tail, rfl, hc⟩ := first_letter h <;>
        rcases hc with rfl | rfl <;> exact ⟨_, _, rfl, by decide⟩
    obtain ⟨c, tail, rfl, hc⟩ := hfirst
    refine ⟨c, tail, rfl, ?_⟩
    rcases hc with rfl | rfl | rfl | rfl | rfl | rfl <;> decide
  | group m_is_array gap items =>
    exact ⟨_, _, rfl, opening_not_blank _, by cases m_is_array <;> decide, by cases m_is_array <;> decide⟩

theorem Term.WellFormed.dense {t : Term} (h : t.WellFormed) (rest : Bytes) : Dense (t.text ++ rest) := by
  obtain ⟨c, tail, htext, hc, -⟩ := h.first
  rw [htext]
  intro d hd
  cases hd
  exact hc

/-- The same for what stands before a closing bracket. -/
theorem Items.WellFormed.dense {m_is_array : Bool} {items : Items} (h : items.WellFormed m_is_array) (rest : Bytes) :
    Dense (items.text ++ closing m_is_array :: rest) := by
  have hname : ∀ {name : Option Name} {t : Term} (tail : Bytes), t.WellFormed →
      Dense (name_text name ++ (t.text ++ tail)) := by
    intro name t tail ht
    cases name with
    | none => exact ht.dense tail
    | some n =>
      intro d hd
      cases hd
      decide
  cases items with
  | empty =>
    intro d hd
    cases hd
    exact closing_not_blank m_is_array
  | last name t gap =>
    rw [Items.text, List.append_assoc, List.append_assoc]
    exact hname _ h.2.1
  | more name t gap gap' items =>
    rw [Items.text, List.append_assoc, List.append_assoc]
    exact hname _ h.2.1

theorem not_numeric_gap {gap : Bytes} {c : UInt8} (hgap : Blank gap) (hc : numeric c = false) (rest : Bytes) :
    NotNumeric (gap ++ c :: rest) := by
  cases gap with
  | nil =>
    intro d hd
    cases hd
    exact hc
  | cons b gap =>
    intro d hd
    cases hd
    have hb : b = 32 ∨ b = 9 ∨ b = 13 ∨ b = 10 := by simpa [isBlank, or_assoc] using hgap b (by simp)
    rcases hb with rfl | rfl | rfl | rfl <;> decide

/-! ## Tokens -/

section
variable {str : Bytes} {pos : Nat} {rest : Bytes} {fuel : Nat}

theorem outcome_ok {A : Type} {a : A} {next : Nat} {after : Bytes} (h : At str next after)
    (hskip : skip after = skip rest) {tight : Prop} (ht : tight) :
    Outcome str rest tight a (.ok (a, next)) :=
  ⟨ht, rfl, after, h, hskip⟩

/-- A term that is not a group, read from its first character. -/
theorem Term.WellFormed.token {t : Term} (h : t.WellFormed) {c : UInt8} {tail : Bytes} (htext : t.text = c :: tail)
    (hgroup : ∀ m_is_array gap items, t ≠ .group m_is_array gap items) (hs : str.length < 2 ^ 32)
    (hat : At str pos (t.text ++ rest)) (hrest : NotNumeric rest) :
    read_by fuel str .T_UNDEFINED pos c = .ok (t.value, pos + t.text.length) := by
  cases t with
  | string raw =>
    cases htext
    have hat' : At str pos (quote :: (raw ++ quote :: rest)) := by simpa [Term.text] using hat
    rw [read_by, if_pos rfl, read_string_closed h hat' hs]
    simp only [Term.text, Term.value, List.length_cons, List.length_append, List.length_nil]
    rw [show pos + (raw.length + (0 + 1) + 1) = pos + raw.length + 2 by omega]
  | number digits =>
    obtain ⟨d, ds, rfl, hd, hds⟩ := h
    cases htext
    have hnumeric : ∀ e ∈ c :: tail, numeric e = true := by
      rw [List.forall_mem_cons]
      exact ⟨by rw [numeric, hd, Bool.true_or], hds⟩
    rw [read_by, if_neg (isdigit_ne hd (by decide)), if_pos (.inr hd),
      read_number_numeric (List.cons_ne_nil _ _) hnumeric hat hrest hs]
    rfl
  | word letters =>
    rw [Term.text] at htext hat
    rw [Term.WellFormed, List.mem_cons, List.mem_cons, List.mem_singleton] at h
    rw [Term.value, Term.text]
    rcases h with h | h | h
    · obtain ⟨c', tail', hletters, hc⟩ := first_letter h
      rw [htext] at hletters
      cases hletters
      rw [read_by_true hc, read_bool_word h hat hs, h, if_neg (by decide)]
    · obtain ⟨c', tail', hletters, hc⟩ := first_letter h
      rw [htext] at hletters
      cases hletters
      rw [read_by_false hc, read_bool_word h hat hs, h, if_neg (by decide)]
    · obtain ⟨c', tail', hletters, hc⟩ := first_letter h
      rw [htext] at hletters
      cases hletters
      rw [read_by_null hc, read_null_word h hat hs, h, if_pos rfl]
      rfl
  | group m_is_array gap items => exact absurd rfl (hgroup m_is_array gap items)

theorem Term.WellFormed.complete {t : Term} (h : t.WellFormed)
    (hgroup : ∀ m_is_array gap items, t ≠ .group m_is_array gap items) : t.Complete := by
  intro str pos g rest fuel hs hg hat hrest hf
  obtain ⟨fuel, rfl⟩ : ∃ n, fuel = n + 1 := ⟨fuel - 1, by omega⟩
  obtain ⟨c, tail, htext, hc, -⟩ := h.first
  have hskip : skip (g ++ (t.text ++ rest)) = c :: (tail ++ rest) := by
    rw [skip_append hg, skip_dense (h.dense rest), htext]
    rfl
  obtain ⟨pos', hat', hread⟩ := read_json_key_value_skip fuel .T_UNDEFINED hat hs hskip
  have hat'' : At str pos' (t.text ++ rest) := by rwa [htext]
  rw [hread, h.token htext hgroup hs hat'' hrest]
  refine outcome_ok hat''.advance rfl ?_
  cases t with
  | group m_is_array gap items => exact absurd rfl (hgroup m_is_array gap items)
  | _ => exact trivial

/-- Brackets are read as their items are. -/
theorem Items.Complete.group {m_is_array : Bool} {gap : Bytes} {items : Items} (h : items.Complete m_is_array)
    (hgap : Blank gap) {o : JsonObject} (hs : str.length < 2 ^ 32)
    (hat : At str pos (opening m_is_array :: (gap ++ (items.text ++ closing m_is_array :: rest))))
    (hf : 3 * (gap ++ (items.text ++ closing m_is_array :: rest)).length + 4 ≤ fuel) :
    Outcome str rest (Term.group m_is_array gap items).Tight
      (items.fill (if m_is_array then { o with m_is_array := true } else o))
      (read_group m_is_array fuel o str pos) := by
  obtain ⟨fuel, rfl⟩ : ∃ n, fuel = n + 1 := ⟨fuel - 1, by omega⟩
  have hleft : ¬ (opening m_is_array :: (gap ++ (items.text ++ closing m_is_array :: rest))).length < 2 := by
    simp only [List.length_cons, List.length_append]
    omega
  have hopen : ¬ opening m_is_array ≠ opening m_is_array := fun hne => hne rfl
  rw [read_group_succ, hat.left hs, if_neg hleft, hat.char, if_neg hopen, hat.next.uint32 hs]
  exact h hs hgap hat.next (by omega)

theorem Items.Complete.term {m_is_array : Bool} {gap : Bytes} {items : Items} (h : items.Complete m_is_array)
    (hgap : Blank gap) : (Term.group m_is_array gap items).Complete := by
  intro str pos g rest fuel hs hg hat hrest hf
  obtain ⟨fuel, rfl⟩ : ∃ n, fuel = n + 1 := ⟨fuel - 1, by omega⟩
  have htext : (Term.group m_is_array gap items).text ++ rest =
      opening m_is_array :: (gap ++ (items.text ++ closing m_is_array :: rest)) := by simp [Term.text]
  rw [htext] at hat hf
  have hskip : skip (g ++ opening m_is_array :: (gap ++ (items.text ++ closing m_is_array :: rest))) =
      opening m_is_array :: (gap ++ (items.text ++ closing m_is_array :: rest)) := by
    rw [skip_append hg, skip_dense]
    intro c hc
    cases hc
    exact opening_not_blank m_is_array
  obtain ⟨pos', hat', hread⟩ := read_json_key_value_skip fuel .T_UNDEFINED hat hs hskip
  rw [List.length_append, List.length_cons] at hf
  have hfuel : 3 * (gap ++ (items.text ++ closing m_is_array :: rest)).length + 4 ≤ fuel := by omega
  have hgroup := h.group (o := {}) hgap hs hat' hfuel
  rw [hread, read_by_group]
  cases hresult : read_group m_is_array fuel {} str pos' with
  | error e =>
    rw [hresult] at hgroup
    exact hgroup
  | ok r =>
    obtain ⟨o', next⟩ := r
    rw [hresult] at hgroup
    obtain ⟨htight, rfl, after, hafter, hskip'⟩ := hgroup
    rw [ok_bind]
    refine ⟨htight, ?_, after, hafter, hskip'⟩
    cases m_is_array <;> rfl

/-! ## Items -/

/-- A name with whitespace before it is read up to the value. -/
theorem NameFits.read {m_is_array : Bool} {name : Option Name} (hfits : NameFits m_is_array name) {g : Bytes}
    (hg : Blank g) (hs : str.length < 2 ^ 32) (hat : At str pos (g ++ (name_text name ++ rest))) (hrest : Dense rest)
    (hf : 0 < fuel) :
    ∃ next g', Blank g' ∧ read_name m_is_array fuel str pos = .ok (name.map Name.key, next) ∧
      At str next (g' ++ rest) ∧ g'.length ≤ (g ++ name_text name).length := by
  cases name with
  | none =>
    cases hfits
    refine ⟨pos, g, hg, ?_, hat, by simp⟩
    rw [read_name, if_pos rfl]
    rfl
  | some n =>
    obtain ⟨rfl, hraw, hbefore, hbehind⟩ := hfits
    obtain ⟨fuel, rfl⟩ : ∃ n, fuel = n + 1 := ⟨fuel - 1, by omega⟩
    have hat' : At str pos (g ++ (quote :: (n.raw ++ quote :: (n.before ++ colon :: (n.behind ++ rest))))) := by
      simpa [name_text] using hat
    have hskip : skip (g ++ (quote :: (n.raw ++ quote :: (n.before ++ colon :: (n.behind ++ rest))))) =
        quote :: (n.raw ++ quote :: (n.before ++ colon :: (n.behind ++ rest))) := by
      rw [skip_append hg, skip_dense]
      intro c hc
      cases hc
      decide
    obtain ⟨pos₁, hat₁, hread⟩ := read_json_key_value_skip fuel .T_UNDEFINED hat' hs hskip
    have hat₂ : At str (pos₁ + n.raw.length + 2) (n.before ++ colon :: (n.behind ++ rest)) := by
      have h := hat₁.next.advance.next
      rwa [show pos₁ + 1 + n.raw.length + 1 = pos₁ + n.raw.length + 2 by omega] at h
    have hcolon : skip (n.before ++ colon :: (n.behind ++ rest)) = colon :: (n.behind ++ rest) := by
      rw [skip_append hbefore, skip_dense]
      intro c hc
      cases hc
      decide
    obtain ⟨next, hdelimiter, hnext⟩ := read_delimiter_skip hat₂ hs hcolon
    rw [skip_append hbehind, skip_dense hrest] at hnext
    refine ⟨next, [], blank_nil, ?_, hnext, by simp⟩
    rw [read_name, if_neg Bool.false_ne_true, hread, read_by, if_pos rfl, read_string_closed hraw hat₁ hs, ok_bind]
    dsimp only
    rw [hdelimiter, ok_bind]
    dsimp only
    rw [if_neg (fun hne => hne rfl)]
    rfl

theorem blank_ne_closing {c : UInt8} (hc : isBlank c = true) (m_is_array : Bool) : c ≠ closing m_is_array := by
  rintro rfl
  rw [closing_not_blank] at hc
  cases hc

/-- An item does not begin with the closing bracket. -/
theorem item_first (m_is_array : Bool) {t : Term} {g : Bytes} (hwf : t.WellFormed) (hg : Blank g)
    (name : Option Name) (tail : Bytes) :
    ∃ c tail', g ++ (name_text name ++ (t.text ++ tail)) = c :: tail' ∧ c ≠ closing m_is_array := by
  cases g with
  | cons b g => exact ⟨b, _, rfl, blank_ne_closing (hg b (by simp)) m_is_array⟩
  | nil =>
    cases name with
    | some n => exact ⟨quote, _, rfl, by cases m_is_array <;> decide⟩
    | none =>
      obtain ⟨c, tail', htext, -, hbracket, hbrace⟩ := hwf.first
      refine ⟨c, tail' ++ tail, ?_, by cases m_is_array <;> assumption⟩
      rw [htext]
      rfl

/-- A round reads an item up to the character behind it, if the item's value is read. -/
theorem item_loop_round {m_is_array : Bool} {name : Option Name} {t : Term} {g gap : Bytes} {c : UInt8}
    {o : JsonObject} (hfits : NameFits m_is_array name) (hwf : t.WellFormed) (ht : t.Complete) (hg : Blank g)
    (hgap : Blank gap) (hc : c = comma ∨ c = closing m_is_array) (hs : str.length < 2 ^ 32)
    (hat : At str pos (g ++ (name_text name ++ (t.text ++ (gap ++ c :: rest)))))
    (hf : 3 * (g ++ (name_text name ++ (t.text ++ (gap ++ c :: rest)))).length + 2 ≤ fuel) :
    (¬ t.Tight ∧ ∃ e, item_loop m_is_array (fuel + 1) o str pos = .error e) ∨
      (t.Tight ∧ ∃ next, At str next (skip rest) ∧ item_loop m_is_array (fuel + 1) o str pos =
        if c = closing m_is_array then .ok (o.add (name.map Name.key) t.value, next)
        else item_loop m_is_array fuel (o.add (name.map Name.key) t.value) str next) := by
  have hplain : isBlank c = false ∧ numeric c = false := by
    rcases hc with rfl | rfl
    · decide
    · cases m_is_array <;> decide
  obtain ⟨d, tail, htext, hd⟩ := item_first m_is_array hwf hg name (gap ++ c :: rest)
  obtain ⟨pos₁, g', hg', hname, h₁, hlen⟩ := hfits.read hg hs hat (hwf.dense _) (show 0 < fuel by omega)
  simp only [List.length_append, List.length_cons] at hf hlen
  have hfuel : 3 * (g' ++ (t.text ++ (gap ++ c :: rest))).length + 2 ≤ fuel := by
    simp only [List.length_append, List.length_cons]
    omega
  have hterm := ht hs hg' h₁ (not_numeric_gap hgap hplain.2 rest) hfuel
  have hat' : At str pos (d :: tail) := by rwa [← htext]
  rw [item_loop_succ, if_neg (Nat.not_le.2 hat'.lt), hat'.char, if_neg hd, hname, ok_bind, read_item]
  dsimp only
  -- whether the round succeeds is decided by the value alone: the name and the delimiter always fit
  cases hvalue : read_json_key_value fuel str .T_UNDEFINED pos₁ with
  | error e =>
    rw [hvalue] at hterm
    exact .inl ⟨hterm, e, rfl⟩
  | ok r =>
    obtain ⟨v, pos₂⟩ := r
    rw [hvalue] at hterm
    obtain ⟨htight, rfl, after, hafter, hskip⟩ := hterm
    rw [skip_append hgap, skip_dense (show Dense (c :: rest) by intro e he; cases he; exact hplain.1)] at hskip
    obtain ⟨next, hdelimiter, hnext⟩ := read_delimiter_skip hafter hs hskip
    refine .inr ⟨htight, next, hnext, ?_⟩
    rw [ok_bind]
    dsimp only
    rw [hdelimiter, ok_bind]
    dsimp only
    rcases hc with rfl | rfl
    · have hne : comma ≠ closing m_is_array := by cases m_is_array <;> decide
      rw [if_neg hne, if_neg hne, if_pos rfl]
    · rw [if_pos rfl, if_pos rfl]
      rfl

/-- Nothing but whitespace before the closing bracket: the loop stops if there is not even that. -/
theorem complete_empty (m_is_array : Bool) : Items.empty.Complete m_is_array := by
  intro str pos g rest fuel o hs hg hat hf
  obtain ⟨fuel, rfl⟩ : ∃ n, fuel = n + 1 := ⟨fuel - 1, by omega⟩
  cases g with
  | nil =>
    have hat' : At str pos (closing m_is_array :: rest) := hat
    rw [item_loop_succ, if_neg (Nat.not_le.2 hat'.lt), hat'.char, if_pos rfl, hat'.next.uint32 hs]
    exact outcome_ok hat'.next rfl ⟨fun _ => rfl, trivial⟩
  | cons b g =>
    have hat' : At str pos (b :: (g ++ closing m_is_array :: rest)) := hat
    -- the loop compares a blank with the bracket, then the reader behind the blanks refuses the bracket
    have hnone : ∀ fuel, ∃ e, read_json_key_value fuel str .T_UNDEFINED pos = .error e := by
      intro fuel
      cases fuel with
      | zero => exact ⟨_, by rw [read_json_key_value]⟩
      | succ fuel =>
        have hskip : skip (b :: (g ++ closing m_is_array :: rest)) = closing m_is_array :: rest := by
          rw [← List.cons_append, skip_append hg, skip_dense]
          intro c hc
          cases hc
          exact closing_not_blank m_is_array
        obtain ⟨pos', -, hread⟩ := read_json_key_value_skip fuel .T_UNDEFINED hat' hs hskip
        refine ⟨.refused, ?_⟩
        rw [hread]
        cases m_is_array <;> rfl
    obtain ⟨e, he⟩ := hnone fuel
    have herror : item_loop m_is_array (fuel + 1) o str pos = .error e := by
      rw [item_loop_succ, if_neg (Nat.not_le.2 hat'.lt), hat'.char,
        if_neg (blank_ne_closing (hg b (by simp)) m_is_array)]
      -- an array fails at the value, an object already at the name
      cases m_is_array with
      | true =>
        rw [read_name, if_pos rfl, ok_bind, read_item]
        dsimp only
        rw [he]
        rfl
      | false =>
        rw [read_name, if_neg Bool.false_ne_true, he]
        rfl
    rw [herror]
    rintro ⟨hempty, -⟩
    cases hempty rfl

theorem complete_last {m_is_array : Bool} {name : Option Name} {t : Term} {gap : Bytes}
    (h : (Items.last name t gap).WellFormed m_is_array) (ht : t.Complete) :
    (Items.last name t gap).Complete m_is_array := by
  intro str pos g rest fuel o hs hg hat hf
  obtain ⟨fuel, rfl⟩ : ∃ n, fuel = n + 1 := ⟨fuel - 1, by omega⟩
  obtain ⟨hfits, hwf, hgap⟩ := h
  rw [Items.text, List.append_assoc, List.append_assoc] at hat hf
  have hfuel : 3 * (g ++ (name_text name ++ (t.text ++ (gap ++ closing m_is_array :: rest)))).length + 2 ≤ fuel := by
    omega
  rcases item_loop_round (o := o) hfits hwf ht hg hgap (.inr rfl) hs hat hfuel with
    ⟨hnot, e, he⟩ | ⟨htight, next, hnext, hok⟩
  · rw [he]
    exact fun htight => hnot htight.2
  · rw [hok, if_pos rfl]
    exact outcome_ok hnext (skip_skip rest) ⟨fun hempty => absurd hempty (by simp), htight⟩

theorem complete_more {m_is_array : Bool} {name : Option Name} {t : Term} {gap gap' : Bytes} {items : Items}
    (h : (Items.more name t gap gap' items).WellFormed m_is_array) (ht : t.Complete)
    (hitems : items.Complete m_is_array) : (Items.more name t gap gap' items).Complete m_is_array := by
  intro str pos g rest fuel o hs hg hat hf
  obtain ⟨fuel, rfl⟩ : ∃ n, fuel = n + 1 := ⟨fuel - 1, by omega⟩
  obtain ⟨hfits, hwf, hgap, hgap', hwfs⟩ := h
  have htext : (Items.more name t gap gap' items).text ++ closing m_is_array :: rest =
      name_text name ++ (t.text ++ (gap ++ comma :: (gap' ++ (items.text ++ closing m_is_array :: rest)))) := by
    simp [Items.text]
  rw [htext] at hat hf
  have hfuel : 3 * (g ++ (name_text name ++ (t.text ++ (gap ++ comma ::
      (gap' ++ (items.text ++ closing m_is_array :: rest)))))).length + 2 ≤ fuel := by omega
  rcases item_loop_round (o := o) hfits hwf ht hg hgap (.inl rfl) hs hat hfuel with
    ⟨hnot, e, he⟩ | ⟨htight, next, hnext, hok⟩
  · rw [he]
    exact fun htight => hnot htight.2.1
  · have hne : comma ≠ closing m_is_array := by cases m_is_array <;> decide
    rw [skip_append hgap', skip_dense (hwfs.dense rest)] at hnext
    have hfuel' : 3 * ([] ++ (items.text ++ closing m_is_array :: rest)).length + 3 ≤ fuel := by
      simp only [List.nil_append, List.length_append, List.length_cons] at hf ⊢
      omega
    -- `read_delimiter` has taken the blanks behind the comma, so the later items begin at once
    have hlater := hitems (o := o.add (name.map Name.key) t.value) hs blank_nil hnext hfuel'
    rw [hok, if_neg hne]
    cases hloop : item_loop m_is_array fuel (o.add (name.map Name.key) t.value) str next with
    | error e =>
      rw [hloop] at hlater
      exact fun htights => hlater ⟨fun _ => rfl, htights.2.2⟩
    | ok r =>
      obtain ⟨o', last⟩ := r
      rw [hloop] at hlater
      obtain ⟨htights, ho, hafter⟩ := hlater
      exact ⟨⟨fun hempty => absurd hempty (by simp), htight, htights.2⟩, ho, hafter⟩

mutual

theorem Term.complete : ∀ t : Term, t.WellFormed → t.Complete
  | .group _ _ items, h => Items.Complete.term (items.complete h.2) h.1
  | .string _, h => Term.WellFormed.complete h nofun
  | .number _, h => Term.WellFormed.complete h nofun
  | .word _, h => Term.WellFormed.complete h nofun

theorem Items.complete {m_is_array : Bool} : ∀ items : Items, items.WellFormed m_is_array → items.Complete m_is_array
  | .empty, _ => complete_empty m_is_array
  | .last _ term _, h => complete_last h (term.complete h.2.1)
  | .more _ term _ _ items, h => complete_more h (term.complete h.2.1) (items.complete h.2.2.2.2)

end

/-! ## Whole texts -/

/-- A well-formed text is accepted if no empty pair has a gap in it. -/
theorem Layout.accepted_iff (l : Layout str) (hs : str.length < 2 ^ 32) (o o' : JsonObject) :
    o.read_from_string str = some o' ↔ l.root.Tight ∧ o' = l.read o := by
  obtain ⟨lead, m_is_array, gap, items, rest, hlead, h, htext⟩ := l
  have hgroup : (Term.group m_is_array gap items).text ++ rest =
      opening m_is_array :: (gap ++ (items.text ++ closing m_is_array :: rest)) := by simp [Term.text]
  rw [hgroup] at htext
  subst htext
  obtain ⟨pos, hpos, hread⟩ := read_text_opening m_is_array o hlead hs
  have hfuel : 3 * (gap ++ (items.text ++ closing m_is_array :: rest)).length + 4 ≤
      fuelFor (lead ++ opening m_is_array :: (gap ++ (items.text ++ closing m_is_array :: rest))) := by
    simp only [fuelFor, List.length_append, List.length_cons]
    omega
  have houtcome := Items.Complete.group (o := o) (items.complete h.2) h.1 hs hpos hfuel
  rw [read_from_string, hread]
  dsimp only [root, read]
  revert houtcome
  cases read_group m_is_array _ o _ pos with
  | error e => exact fun hnot => iff_of_false (Option.some_ne_none o').symm fun htight => hnot htight.1
  | ok r =>
    rintro ⟨htight, ho, -⟩
    dsimp only
    rw [← ho, Option.some_inj]
    exact ⟨fun h => ⟨htight, h.symm⟩, fun h => h.2.symm⟩

end

end RtcClient.JsonObject
