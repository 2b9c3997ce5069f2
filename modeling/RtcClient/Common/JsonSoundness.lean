import RtcClient.Common.JsonSyntax
/-!
# What is accepted is well formed

Where a reader succeeds, what it has passed is the text of a well-formed tree with no
gap between the brackets of an empty pair, and what it gives is the tree's value.
-/

namespace RtcClient.JsonObject

open Lib

/-! ## Trees -/

/-- What was passed is a tree with whitespace around it. -/
def TermRead (str rest : Bytes) (v : JsonValue) (next : Nat) : Prop :=
  ∃ (t : Term) (g b after : Bytes), t.WellFormed ∧ t.Tight ∧ v = t.value ∧ Blank g ∧ Blank b ∧
    rest = g ++ (t.text ++ (b ++ after)) ∧ At str next after

/-- The same for what stands between brackets. -/
def ItemsRead (m_is_array : Bool) (o : JsonObject) (str rest : Bytes) (o' : JsonObject) (next : Nat) : Prop :=
  ∃ (items : Items) (g b after : Bytes), items.WellFormed m_is_array ∧ items.Tight ∧ (items = .empty → g = []) ∧
    o' = items.fill o ∧ Blank g ∧ Blank b ∧
    rest = g ++ (items.text ++ closing m_is_array :: (b ++ after)) ∧ At str next after

/-- Every reader, with that much fuel. -/
structure Sound (fuel : Nat) : Prop where
  term : ∀ {str pos rest v next}, str.length < 2 ^ 32 → At str pos rest →
    read_json_key_value fuel str .T_UNDEFINED pos = .ok (v, next) → TermRead str rest v next
  group : ∀ {m_is_array o str pos rest o' next}, str.length < 2 ^ 32 → At str pos (opening m_is_array :: rest) →
    read_group m_is_array fuel o str pos = .ok (o', next) →
    ItemsRead m_is_array (if m_is_array then { o with m_is_array := true } else o) str rest o' next
  items : ∀ {m_is_array o str pos rest o' next}, str.length < 2 ^ 32 → At str pos rest →
    item_loop m_is_array fuel o str pos = .ok (o', next) → ItemsRead m_is_array o str rest o' next

section
variable {str : Bytes} {pos : Nat} {rest : Bytes} {fuel : Nat}

/-- Brackets are read as their items are. -/
theorem Sound.read_group (ih : Sound fuel) {m_is_array : Bool} {o o' : JsonObject} {next : Nat}
    (hs : str.length < 2 ^ 32) (h : At str pos (opening m_is_array :: rest))
    (hread : read_group m_is_array (fuel + 1) o str pos = .ok (o', next)) :
    ItemsRead m_is_array (if m_is_array then { o with m_is_array := true } else o) str rest o' next := by
  rw [read_group_succ] at hread
  split at hread
  · cases hread
  rw [h.char, if_neg (by simp), h.next.uint32 hs] at hread
  exact ih.items hs h.next hread

theorem Sound.read_by_group (ih : Sound fuel) (m_is_array : Bool) {v : JsonValue} {next : Nat}
    (hs : str.length < 2 ^ 32) (h : At str pos (opening m_is_array :: rest))
    (hread : read_by fuel str .T_UNDEFINED pos (opening m_is_array) = .ok (v, next)) :
    TermRead str (opening m_is_array :: rest) v next := by
  rw [JsonObject.read_by_group] at hread
  obtain ⟨⟨o', next'⟩, hgroup, hv⟩ := of_bind_ok hread
  cases hv
  obtain ⟨items, g, b, after, hwf, htight, hempty, rfl, hg, hb, rfl, hafter⟩ := ih.group hs h hgroup
  refine ⟨.group m_is_array g items, [], b, after, ⟨hg, hwf⟩, ⟨hempty, htight⟩, ?_, blank_nil, hb, ?_, hafter⟩
  · cases m_is_array <;> rfl
  · simp [Term.text]

theorem read_number_sound {c : UInt8} {v : JsonValue} {next : Nat} (hc : isdigit c = true) (hs : str.length < 2 ^ 32)
    (h : At str pos (c :: rest)) (hread : read_number str pos = .ok (v, next)) : TermRead str (c :: rest) v next := by
  obtain ⟨ds, after, hrest, hds, hafter⟩ := exists_numeric (c :: rest)
  have hnumeric : numeric c = true := by rw [numeric, hc, Bool.true_or]
  cases ds with
  | nil =>
    rw [List.nil_append] at hrest
    rw [← hrest] at hafter
    exact absurd (hafter c rfl) (by simp [hnumeric])
  | cons d ds =>
    obtain ⟨rfl, htail⟩ := List.cons.inj hrest
    obtain rfl : rest = ds ++ after := htail
    have h' : At str pos ((c :: ds) ++ after) := h
    rw [read_number_numeric (List.cons_ne_nil _ _) hds h' hafter hs] at hread
    cases hread
    exact ⟨.number (c :: ds), [], [], after, ⟨c, ds, rfl, hc, fun d hd => hds d (by simp [hd])⟩, trivial, rfl,
      blank_nil, blank_nil, rfl, h'.advance⟩

theorem read_bool_sound {wanted : Bytes} {v : JsonValue} {next : Nat}
    (hwanted : wanted = ascii "true" ∨ wanted = ascii "false") (hs : str.length < 2 ^ 32) (h : At str pos rest)
    (hread : read_bool str pos wanted = .ok (v, next)) : TermRead str rest v next := by
  obtain ⟨w, after, rfl, hw⟩ := read_bool_ok h hread
  rw [read_bool_word hw h hs] at hread
  cases hread
  refine ⟨.word w, [], [], after, ?_, trivial, ?_, blank_nil, blank_nil, rfl, h.advance⟩
  · rw [Term.WellFormed, hw]
    rcases hwanted with rfl | rfl <;> simp
  · rw [Term.value, hw]
    rcases hwanted with rfl | rfl <;> rfl

theorem read_null_sound {next : Nat} (hs : str.length < 2 ^ 32) (h : At str pos rest)
    (hread : read_null str pos = .ok next) : TermRead str rest .T_UNDEFINED next := by
  obtain ⟨w, after, rfl, hw⟩ := read_null_ok h hread
  rw [read_null_word hw h hs] at hread
  cases hread
  refine ⟨.word w, [], [], after, ?_, trivial, ?_, blank_nil, blank_nil, rfl, h.advance⟩
  · rw [Term.WellFormed, hw]
    simp
  · rw [Term.value, hw, if_pos rfl]

/-- One lemma for each kind of token, chosen by the first character. -/
theorem Sound.read_by (ih : Sound fuel) {c : UInt8} {v : JsonValue} {next : Nat} (hs : str.length < 2 ^ 32)
    (h : At str pos (c :: rest)) (hread : read_by fuel str .T_UNDEFINED pos c = .ok (v, next)) :
    TermRead str (c :: rest) v next := by
  by_cases hopen : c = openBrace
  · subst hopen
    exact ih.read_by_group false hs h hread
  by_cases hopen' : c = openBracket
  · subst hopen'
    exact ih.read_by_group true hs h hread
  unfold JsonObject.read_by at hread
  rw [if_neg hopen, if_neg hopen'] at hread
  split at hread
  · rename_i hc
    subst hc
    obtain ⟨raw, after, hraw, rfl, rfl, hafter⟩ := read_string_ok h hs hread
    exact ⟨.string raw, [], [], after, hraw, trivial, rfl, blank_nil, blank_nil, by simp [Term.text], hafter⟩
  split at hread
  · rename_i hc
    rcases hc with rfl | hc
    · rw [read_number_none h (by intro d hd; cases hd; decide) hs] at hread
      cases hread
    · exact read_number_sound hc hs h hread
  split at hread
  · exact read_bool_sound (.inl rfl) hs h hread
  split at hread
  · exact read_bool_sound (.inr rfl) hs h hread
  split at hread
  · obtain ⟨next', hnull, hv⟩ := of_bind_ok hread
    cases hv
    exact read_null_sound hs h hnull
  · cases hread

theorem Sound.read_json_key_value (ih : Sound fuel) {v : JsonValue} {next : Nat} (hs : str.length < 2 ^ 32)
    (h : At str pos rest) (hread : read_json_key_value (fuel + 1) str .T_UNDEFINED pos = .ok (v, next)) :
    TermRead str rest v next := by
  obtain ⟨g, hg, hrest⟩ := exists_skip rest
  cases hskip : skip rest with
  | nil =>
    rw [read_json_key_value_end h hs hskip] at hread
    cases hread
  | cons c tail =>
    obtain ⟨pos', h', hread'⟩ := read_json_key_value_skip fuel .T_UNDEFINED h hs hskip
    rw [hread'] at hread
    obtain ⟨t, g', b, after, hwf, htight, hv, hg', hb, htext, hafter⟩ := ih.read_by hs h' hread
    refine ⟨t, g ++ g', b, after, hwf, htight, hv, hg.append hg', hb, ?_, hafter⟩
    rw [hrest, hskip, htext, List.append_assoc]

/-! ### Items -/

theorem Term.value_string {t : Term} {s : Bytes} (h : t.value = .T_STRING s) :
    ∃ raw, t = .string raw ∧ s = unescape_string raw := by
  cases t with
  | string raw =>
    cases h
    exact ⟨raw, rfl, rfl⟩
  | number digits =>
    rw [Term.value, number_value] at h
    split at h <;> cases h
  | word letters =>
    rw [Term.value] at h
    split at h <;> cases h
  | group m_is_array gap items =>
    rw [Term.value] at h
    cases h

/-- What was passed before a value is its name with whitespace before it. -/
theorem Sound.read_name (ih : Sound fuel) {m_is_array : Bool} {key : Option Bytes} {next : Nat}
    (hs : str.length < 2 ^ 32) (h : At str pos rest) (hread : read_name m_is_array fuel str pos = .ok (key, next)) :
    ∃ g name after, Blank g ∧ NameFits m_is_array name ∧ key = name.map Name.key ∧
      rest = g ++ (name_text name ++ after) ∧ At str next after := by
  cases m_is_array with
  | true =>
    rw [JsonObject.read_name, if_pos rfl] at hread
    cases hread
    exact ⟨[], none, rest, blank_nil, rfl, rfl, rfl, h⟩
  | false =>
    rw [JsonObject.read_name, if_neg Bool.false_ne_true] at hread
    obtain ⟨⟨v, pos₁⟩, hkey, hread⟩ := of_bind_ok hread
    cases v with
    | T_STRING s =>
      obtain ⟨t, g, b, after₁, hwf, -, hv, hg, hb, rfl, hafter₁⟩ := ih.term hs h hkey
      obtain ⟨raw, rfl, rfl⟩ := Term.value_string hv.symm
      obtain ⟨⟨c, next'⟩, hdelimiter, hread⟩ := of_bind_ok hread
      obtain ⟨gap, gap', after, hgap, hgap', rfl, hafter⟩ := read_delimiter_ok hafter₁ hs hdelimiter
      dsimp only at hread
      split at hread
      · cases hread
      rename_i hc
      cases Decidable.not_not.1 hc
      cases hread
      refine ⟨g, some ⟨raw, b ++ gap, gap'⟩, after, hg, ⟨rfl, hwf, hb.append hgap, hgap'⟩, rfl, ?_, hafter⟩
      simp [Term.text, name_text]
    | _ => cases hread

/-- Whitespace before a value is the name's, or stands before the item if there is no name. -/
theorem NameFits.gap {m_is_array : Bool} {name : Option Name} {g g' : Bytes} (h : NameFits m_is_array name)
    (hg : Blank g) (hg' : Blank g') :
    ∃ g₁ name₁, Blank g₁ ∧ NameFits m_is_array name₁ ∧ name₁.map Name.key = name.map Name.key ∧
      ∀ rest, g ++ (name_text name ++ (g' ++ rest)) = g₁ ++ (name_text name₁ ++ rest) := by
  cases name with
  | none => exact ⟨g ++ g', none, hg.append hg', h, rfl, by simp [name_text]⟩
  | some n =>
    obtain ⟨hm, hraw, hbefore, hbehind⟩ := h
    exact ⟨g, some ⟨n.raw, n.before, n.behind ++ g'⟩, hg, ⟨hm, hraw, hbefore, hbehind.append hg'⟩, rfl,
      by simp [name_text]⟩

/-- A round of the loop, and the rounds behind it. -/
theorem Sound.item_loop (ih : Sound fuel) {m_is_array : Bool} {o o' : JsonObject} {next : Nat}
    (hs : str.length < 2 ^ 32) (h : At str pos rest)
    (hread : item_loop m_is_array (fuel + 1) o str pos = .ok (o', next)) :
    ItemsRead m_is_array o str rest o' next := by
  rw [item_loop_succ] at hread
  split at hread
  · cases hread
  rename_i hlt
  split at hread
  · -- nothing stands before the closing bracket
    rename_i hc
    cases hread
    cases rest with
    | nil => exact absurd h.nil_le hlt
    | cons c rest =>
      rw [h.char] at hc
      subst hc
      rw [h.next.uint32 hs]
      exact ⟨.empty, [], [], rest, trivial, trivial, fun _ => rfl, rfl, blank_nil, blank_nil, rfl, h.next⟩
  · obtain ⟨⟨key, pos₁⟩, hname, hread⟩ := of_bind_ok hread
    obtain ⟨g, name, rest₁, hg, hfits, rfl, rfl, h₁⟩ := ih.read_name hs h hname
    obtain ⟨⟨v, pos₂⟩, hvalue, hread⟩ := of_bind_ok hread
    obtain ⟨t, g', b, rest₂, hwf, htight, rfl, hg', hb, rfl, h₂⟩ := ih.term hs h₁ hvalue
    obtain ⟨⟨c, pos₃⟩, hdelimiter, hread⟩ := of_bind_ok hread
    obtain ⟨gap, gap', rest₃, hgap, hgap', rfl, h₃⟩ := read_delimiter_ok h₂ hs hdelimiter
    -- the blanks in front of the value are those behind the colon, or in an array those in front of the item
    obtain ⟨g₁, name₁, hg₁, hfits₁, hkey, htext⟩ := hfits.gap hg hg'
    dsimp only at hread
    rw [← hkey] at hread
    split at hread
    · rename_i hc
      subst hc
      cases hread
      refine ⟨.last name₁ t (b ++ gap), g₁, gap', rest₃, ⟨hfits₁, hwf, hb.append hgap⟩, htight, nofun, rfl, hg₁, hgap',
        ?_, h₃⟩
      rw [htext, Items.text]
      simp only [List.append_assoc]
    split at hread
    · rename_i hc
      subst hc
      obtain ⟨items, g₄, b₄, after, hwfs, htights, -, rfl, hg₄, hb₄, rfl, hafter⟩ := ih.items hs h₃ hread
      -- the blanks in front of the later items are those behind the comma
      refine ⟨.more name₁ t (b ++ gap) (gap' ++ g₄) items, g₁, b₄, after,
        ⟨hfits₁, hwf, hb.append hgap, hgap'.append hg₄, hwfs⟩, ⟨htight, htights⟩, nofun, rfl, hg₁, hb₄, ?_, hafter⟩
      rw [htext, Items.text]
      simp only [List.append_assoc, List.cons_append]
    · cases hread

theorem sound (fuel : Nat) : Sound fuel := by
  induction fuel with
  | zero =>
    refine ⟨?_, ?_, ?_⟩
    · intro str pos rest v next _ _ h
      rw [read_json_key_value] at h
      cases h
    · intro m_is_array o str pos rest o' next _ _ h
      rw [read_group_zero] at h
      cases h
    · intro m_is_array o str pos rest o' next _ _ h
      rw [item_loop_zero] at h
      cases h
  | succ fuel ih => exact ⟨ih.read_json_key_value, ih.read_group, ih.item_loop⟩

/-! ## Whole texts -/

theorem read_text_group {o o' : JsonObject} {next : Nat} (h : o.read_text str = .ok (o', next))
    (hs : str.length < 2 ^ 32) :
    ∃ (m_is_array : Bool) (g tail : Bytes), Blank g ∧ str = g ++ opening m_is_array :: tail ∧
      ∃ pos, At str pos (opening m_is_array :: tail) ∧
        read_group m_is_array (fuelFor str) o str pos = .ok (o', next) := by
  obtain ⟨g, hg, hstr⟩ := exists_skip str
  obtain ⟨pos, hwhite, hpos⟩ := read_whitespace_skip (At.start str) hs
  unfold read_text at h
  rw [hwhite] at h
  dsimp only at h
  split at h
  · cases h
  rw [ok_bind] at h
  cases hskip : skip str with
  | nil =>
    rw [hskip] at hpos
    -- nothing but blanks: the byte read is the terminating zero
    rw [charAt_end hpos, if_neg (by decide), if_neg (by decide)] at h
    cases h
  | cons c tail =>
    rw [hskip] at hpos hstr
    rw [hpos.char] at h
    split at h
    · rename_i hc
      subst hc
      exact ⟨false, g, tail, hg, hstr, pos, hpos, h⟩
    split at h
    · rename_i hc
      subst hc
      exact ⟨true, g, tail, hg, hstr, pos, hpos, h⟩
    · cases h

/-- An accepted text is well formed, and no empty pair has a gap in it. -/
theorem exists_layout {o o' : JsonObject} (h : o.read_from_string str = some o') (hs : str.length < 2 ^ 32) :
    ∃ l : Layout str, l.root.Tight ∧ o' = l.read o := by
  unfold read_from_string at h
  split at h
  · rename_i o₁ next hread
    cases h
    obtain ⟨m_is_array, lead, tail, hlead, hstr, pos, hpos, hgroup⟩ := read_text_group hread hs
    obtain ⟨items, gap, b, after, hwf, htight, hempty, ho, hgap, hb, rfl, -⟩ := (sound _).group hs hpos hgroup
    refine ⟨⟨lead, m_is_array, gap, items, b ++ after, hlead, ⟨hgap, hwf⟩, ?_⟩, ⟨hempty, htight⟩, ho⟩
    rw [hstr]
    simp [Term.text]
  · cases h

end

end RtcClient.JsonObject
