import RtcClient.Common.JsonGroups
/-!
# What the reader takes for JSON

The texts the reader accepts, as trees of tokens with the whitespace between them: what
the text of such a tree is and what value is made of it. Brackets may close right
behind a comma, words may have capitals, numbers may have any number of points.

Whitespace may stand between any two tokens but the brackets of an empty pair
(`Term.Tight`): the loops look for the closing bracket before they skip anything.
-/

namespace RtcClient.JsonObject

open Lib

/-! ## Trees -/

/-- The name of a member: what stands between its quotes, and the whitespace before and behind the colon. -/
structure Name where
  raw : Bytes
  before : Bytes
  behind : Bytes

mutual

inductive Term where
  | string (raw : Bytes)
  | number (digits : Bytes)
  | word (letters : Bytes)
  /-- Brackets, with the whitespace behind the opening one. -/
  | group (m_is_array : Bool) (gap : Bytes) (items : Items)

/-- Members or elements, the first one first, with the whitespace behind each and behind the comma. -/
inductive Items where
  | empty
  | last (name : Option Name) (term : Term) (gap : Bytes)
  | more (name : Option Name) (term : Term) (gap : Bytes) (gap' : Bytes) (items : Items)

end

/-! ### Text -/

/-- Only members have names. -/
def name_text : Option Name → Bytes
  | .none => []
  | .some n => quote :: (n.raw ++ quote :: (n.before ++ colon :: n.behind))

mutual

def Term.text : Term → Bytes
  | .string raw => quote :: (raw ++ [quote])
  | .number digits => digits
  | .word letters => letters
  | .group m_is_array gap items => opening m_is_array :: (gap ++ (items.text ++ [closing m_is_array]))

def Items.text : Items → Bytes
  | .empty => []
  | .last name term gap => name_text name ++ (term.text ++ gap)
  | .more name term gap gap' items => name_text name ++ (term.text ++ (gap ++ comma :: (gap' ++ items.text)))

end

/-! ### Value -/

def Name.key (n : Name) : Bytes := unescape_string n.raw

mutual

/-- A `null` leaves what the value was before, undefined. -/
def Term.value : Term → JsonValue
  | .string raw => .T_STRING (unescape_string raw)
  | .number digits => number_value digits
  | .word letters =>
    if string_to_lower letters = ascii "null" then .T_UNDEFINED
    else .T_BOOL (string_to_lower letters = ascii "true")
  | .group m_is_array _ items => .ofObject (items.fill { m_is_array := m_is_array })

def Items.fill : Items → JsonObject → JsonObject
  | .empty, o => o
  | .last name term _, o => o.add (name.map Name.key) term.value
  | .more name term _ _ items, o => items.fill (o.add (name.map Name.key) term.value)

end

/-- The names of the members. -/
def Items.names : Items → List Name
  | .empty => []
  | .last name _ _ => name.toList
  | .more name _ _ _ items => name.toList ++ items.names

def Items.terms : Items → List Term
  | .empty => []
  | .last _ term _ => [term]
  | .more _ term _ _ items => term :: items.terms

/-! ### Tokens and gaps -/

def Name.WellFormed (n : Name) : Prop := Closes n.raw ∧ Blank n.before ∧ Blank n.behind

/-- Members have names, elements have none. -/
def NameFits (m_is_array : Bool) : Option Name → Prop
  | .none => m_is_array = true
  | .some n => m_is_array = false ∧ n.WellFormed

mutual

/-- Every token is one and every gap is whitespace. -/
def Term.WellFormed : Term → Prop
  | .string raw => Closes raw
  | .number digits => ∃ c tail, digits = c :: tail ∧ isdigit c = true ∧ ∀ d ∈ tail, numeric d = true
  | .word letters => string_to_lower letters ∈ [ascii "true", ascii "false", ascii "null"]
  | .group m_is_array gap items => Blank gap ∧ items.WellFormed m_is_array

def Items.WellFormed (m_is_array : Bool) : Items → Prop
  | .empty => True
  | .last name term gap => NameFits m_is_array name ∧ term.WellFormed ∧ Blank gap
  | .more name term gap gap' items =>
    NameFits m_is_array name ∧ term.WellFormed ∧ Blank gap ∧ Blank gap' ∧ items.WellFormed m_is_array

end

mutual

/-- There is no whitespace between the brackets of an empty pair. -/
def Term.Tight : Term → Prop
  | .group _ gap items => (items = .empty → gap = []) ∧ items.Tight
  | _ => True

def Items.Tight : Items → Prop
  | .empty => True
  | .last _ term _ => term.Tight
  | .more _ term _ _ items => term.Tight ∧ items.Tight

end

mutual

/-- The tokens without the whitespace. -/
def Term.bare : Term → Term
  | .group m_is_array _ items => .group m_is_array [] items.bare
  | .string raw => .string raw
  | .number digits => .number digits
  | .word letters => .word letters

def Items.bare : Items → Items
  | .empty => .empty
  | .last name term _ => .last (name.map fun n => ⟨n.raw, [], []⟩) term.bare []
  | .more name term _ _ items => .more (name.map fun n => ⟨n.raw, [], []⟩) term.bare [] [] items.bare

end

mutual

/-- The value does not depend on the whitespace. -/
theorem Term.value_bare : ∀ t : Term, t.bare.value = t.value
  | .group m_is_array gap items => by rw [Term.bare, Term.value, Term.value, Items.fill_bare]
  | .string _ | .number _ | .word _ => rfl

theorem Items.fill_bare : ∀ (items : Items) (o : JsonObject), items.bare.fill o = items.fill o
  | .empty, o => rfl
  | .last name term gap, o => by
    rw [Items.bare, Items.fill, Items.fill, term.value_bare]
    cases name <;> rfl
  | .more name term gap gap' items, o => by
    rw [Items.bare, Items.fill, Items.fill, term.value_bare, items.fill_bare]
    cases name <;> rfl

end

/-! ## Texts -/

/-- A text as a pair of brackets with whitespace before it and anything behind it. -/
structure Layout (str : Bytes) where
  lead : Bytes
  m_is_array : Bool
  gap : Bytes
  items : Items
  rest : Bytes
  blank : Blank lead
  wellFormed : (Term.group m_is_array gap items).WellFormed
  text : str = lead ++ ((Term.group m_is_array gap items).text ++ rest)

namespace Layout

variable {str : Bytes}

def root (l : Layout str) : Term := .group l.m_is_array l.gap l.items

/-- What becomes of an object the text is read into. -/
def read (l : Layout str) (o : JsonObject) : JsonObject :=
  l.items.fill (if l.m_is_array then { o with m_is_array := true } else o)

end Layout

end RtcClient.JsonObject
