import RtcClient.Common.JsonCompleteness
/-!
# Whitespace between tokens

Two texts with the same tokens are read alike wherever the whitespace stands, but for
one place: the loops look for the closing bracket directly behind the opening one, so a
gap in an empty pair is refused (`spacing_iff`).
-/

namespace RtcClient.JsonObject

open Lib

theorem fill_root {str : Bytes} (l : Layout str) (o : JsonObject) :
    l.read o = l.items.bare.fill (if l.m_is_array then { o with m_is_array := true } else o) :=
  (l.items.fill_bare _).symm

/-- The same tokens fill an object in the same way. -/
theorem read_of_bare {s s' : Bytes} (l : Layout s) (l' : Layout s') (h : l'.root.bare = l.root.bare) (o : JsonObject) :
    l'.read o = l.read o := by
  rw [Layout.root, Layout.root, Term.bare, Term.bare] at h
  obtain ⟨harray, -, hitems⟩ := Term.group.inj h
  rw [fill_root, fill_root, harray, hitems]

/-- An accepted text has its tokens, and a text with the same tokens and any whitespace between them is read alike
exactly if it has none between the brackets of an empty pair. -/
theorem spacing_iff {o o₁ : JsonObject} {s : Bytes} (hs : s.length < 2 ^ 32) (h : o.read_from_string s = some o₁) :
    Nonempty (Layout s) ∧ ∀ (s' : Bytes) (l : Layout s) (l' : Layout s'), s'.length < 2 ^ 32 →
      l'.root.bare = l.root.bare → (o.read_from_string s' = some o₁ ↔ l'.root.Tight) := by
  refine ⟨?_, ?_⟩
  · obtain ⟨l, -⟩ := exists_layout h hs
    exact ⟨l⟩
  · intro s' l l' hs' hbare
    obtain ⟨-, rfl⟩ := (l.accepted_iff hs o o₁).1 h
    rw [l'.accepted_iff hs', read_of_bare l l' hbare]
    exact and_iff_left rfl

/-! ### Texts -/

theorem blank_space : Blank [32] := by
  intro c hc
  rw [List.mem_singleton.1 hc]
  rfl

/-- The text of an array with one number in it. -/
def seven (gap gap' : Bytes) (h : Blank gap) (h' : Blank gap') :
    Layout (Term.group true gap (.last none (.number [55]) gap')).text where
  lead := []
  m_is_array := true
  gap := gap
  items := .last none (.number [55]) gap'
  rest := []
  blank := blank_nil
  wellFormed := ⟨h, rfl, ⟨55, [], rfl, rfl, nofun⟩, h'⟩
  text := (List.append_nil _).symm

theorem spacing_seven :
    Nonempty (Layout (ascii "[7]")) ∧
      ∀ (s' : Bytes) (l : Layout (ascii "[7]")) (l' : Layout s'), s'.length < 2 ^ 32 → l'.root.bare = l.root.bare →
        (read_from_string {} s' = some ((seven [] [] blank_nil blank_nil).read {}) ↔ l'.root.Tight) :=
  spacing_iff (by decide) (((seven [] [] blank_nil blank_nil).accepted_iff (by decide) _ _).2 ⟨⟨nofun, trivial⟩, rfl⟩)

/-- The text of an empty object, with a gap or without one. -/
def pair (gap : Bytes) (h : Blank gap) : Layout (Term.group false gap .empty).text where
  lead := []
  m_is_array := false
  gap := gap
  items := .empty
  rest := []
  blank := blank_nil
  wellFormed := ⟨h, trivial⟩
  text := (List.append_nil _).symm

/-- A space between the braces of an empty object. -/
theorem gap_refused :
    read_from_string {} (ascii "\x7b\x7d") = some {} ∧ read_from_string {} (ascii "\x7b \x7d") = none ∧
      ¬ ∀ (s s' : Bytes) (l : Layout s) (l' : Layout s') (o : JsonObject), l'.root.bare = l.root.bare →
        read_from_string {} s = some o → read_from_string {} s' = some o := by
  have hpair : read_from_string {} (Term.group false [] .empty).text = some {} :=
    ((pair [] blank_nil).accepted_iff (by decide) _ _).2 ⟨⟨fun _ => rfl, trivial⟩, rfl⟩
  have hgap : read_from_string {} (Term.group false [32] .empty).text = none := by
    apply Option.eq_none_iff_forall_ne_some.2
    intro o ho
    obtain ⟨⟨hempty, -⟩, -⟩ := ((pair [32] blank_space).accepted_iff (by decide) _ _).1 ho
    cases hempty rfl
  refine ⟨hpair, hgap, fun h => ?_⟩
  have hboth := h _ _ (pair [] blank_nil) (pair [32] blank_space) {} rfl hpair
  rw [hgap] at hboth
  cases hboth

end RtcClient.JsonObject
