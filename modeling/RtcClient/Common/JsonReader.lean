import RtcClient.Common.Json
/-!
# The JSON reader

`read_from_string` and the readers it calls, which move a cursor through the text.
The cursor is a `uint32_t`, so it is truncated wherever it is moved. Loops and
recursion take fuel; a reader that has none left is `unfinished`. A reader that
returns false is `refused`; its callers then return false without looking at the
cursor or the value.
-/

namespace RtcClient

open Lib

/-- Why a reader gave no value. -/
inductive Stop where
  | refused
  | unfinished
deriving DecidableEq, Repr

namespace JsonObject

/-! ## Characters -/

abbrev quote : UInt8 := 34
abbrev comma : UInt8 := 44
abbrev minus : UInt8 := 45
abbrev point : UInt8 := 46
abbrev slash : UInt8 := 47
abbrev colon : UInt8 := 58
abbrev openBracket : UInt8 := 91
abbrev backslash : UInt8 := 92
abbrev closeBracket : UInt8 := 93
abbrev openBrace : UInt8 := 123
abbrev closeBrace : UInt8 := 125

/-- Space, tab, CR or LF. -/
def isBlank (c : UInt8) : Bool := c == 32 || c == 9 || c == 13 || c == 10

/-- `str[pos]`; behind the last character there is a NUL. -/
def charAt (str : Bytes) (pos : Nat) : UInt8 := str.getD pos 0

/-- A `uint32_t` assigned to. -/
def uint32 (n : Nat) : Nat := n % 2 ^ 32

/-- `str.size() - startPos`, which is a `size_t`. -/
def size_left (str : Bytes) (startPos : Nat) : Nat := (str.length + 2 ^ 64 - startPos) % 2 ^ 64

/-- `str.find(c, pos)`. -/
def find_char (str : Bytes) (c : UInt8) (pos : Nat) : Option Nat := ((str.drop pos).findIdx? (· == c)).map (pos + ·)

/-! ## Escaping -/

def escape_string (str : Bytes) : Bytes :=
  let str := string_replace str [backslash] [backslash, backslash]
  let str := string_replace str [slash] [backslash, slash]
  let str := string_replace str [quote] [backslash, quote]
  let str := string_replace str [8] [backslash, 98]
  let str := string_replace str [12] [backslash, 102]
  let str := string_replace str [10] [backslash, 110]
  let str := string_replace str [13] [backslash, 114]
  string_replace str [9] [backslash, 116]

def unescape_string (str : Bytes) : Bytes :=
  let str := string_replace str [backslash, slash] [slash]
  let str := string_replace str [backslash, quote] [quote]
  let str := string_replace str [backslash, 98] [8]
  let str := string_replace str [backslash, 102] [12]
  let str := string_replace str [backslash, 110] [10]
  let str := string_replace str [backslash, 114] [13]
  let str := string_replace str [backslash, 116] [9]
  string_replace str [backslash, backslash] [backslash]

/-! ## Tokens -/

def whitespace_loop (str : Bytes) : Nat → Nat → Except Stop Nat
  | 0, _ => .error .unfinished
  | fuel + 1, startPos =>
    if startPos < str.length then
      if isBlank (charAt str startPos) then whitespace_loop str fuel (uint32 (startPos + 1)) else .ok startPos
    else .ok startPos

def read_whitespace (str : Bytes) (startPos : Nat) : Except Stop Nat :=
  whitespace_loop str (str.length + 1) startPos

def read_delimiter (str : Bytes) (startPos : Nat) : Except Stop (UInt8 × Nat) := do
  let startPos ← read_whitespace str startPos
  if size_left str startPos < 1 then throw .refused
  let c := charAt str startPos
  let startPos ← read_whitespace str (uint32 (startPos + 1))
  return (c, startPos)

/-- The search for the closing quote: a quote behind a backslash does not count. -/
def string_loop (str : Bytes) (startPos : Nat) : Nat → Nat → Except Stop (Bytes × Nat)
  | 0, _ => .error .unfinished
  | fuel + 1, pos =>
    match find_char str quote pos with
    | none => .error .refused
    | some pos =>
      if charAt str (pos - 1) = backslash then string_loop str startPos fuel (pos + 1)
      else .ok ((str.drop startPos).take (pos - startPos), uint32 (pos + 1))

def read_string (str : Bytes) (startPos : Nat) : Except Stop (JsonValue × Nat) := do
  if size_left str startPos < 2 then throw .refused
  if charAt str startPos ≠ quote then throw .refused
  let startPos := uint32 (startPos + 1)
  let (value, startPos) ← string_loop str startPos (str.length + 1) startPos
  return (.T_STRING (unescape_string value), startPos)

def number_loop (str : Bytes) : Nat → Nat → Bytes → Bool → Except Stop (Bytes × Bool × Nat)
  | 0, _, _, _ => .error .unfinished
  | fuel + 1, startPos, floatStr, isFloat =>
    if startPos < str.length then
      let c := charAt str startPos
      if isdigit c then number_loop str fuel (uint32 (startPos + 1)) (floatStr ++ [c]) isFloat
      else if c = point then number_loop str fuel (uint32 (startPos + 1)) (floatStr ++ [c]) true
      else .ok (floatStr, isFloat, startPos)
    else .ok (floatStr, isFloat, startPos)

def read_number (str : Bytes) (startPos : Nat) : Except Stop (JsonValue × Nat) := do
  let (floatStr, isFloat, startPos) ← number_loop str (str.length + 1) startPos [] false
  if floatStr = [] then throw .refused
  if isFloat then return (.T_DOUBLE (string_to_double floatStr), startPos)
  else return (.T_INT64 (Int64.ofInt (string_to_long floatStr)), startPos)

def read_bool (str : Bytes) (startPos : Nat) (wanted : Bytes) : Except Stop (JsonValue × Nat) := do
  if size_left str startPos < wanted.length then throw .refused
  let temp := string_to_lower ((str.drop startPos).take wanted.length)
  if temp ≠ wanted then throw .refused
  return (.T_BOOL (wanted = ascii "true"), uint32 (startPos + wanted.length))

/-- It has no result to set. -/
def read_null (str : Bytes) (startPos : Nat) : Except Stop Nat := do
  if size_left str startPos < 4 then throw .refused
  let temp := string_to_lower ((str.drop startPos).take 4)
  if temp ≠ ascii "null" then throw .refused
  return uint32 (startPos + 4)

/-! ## Values -/

/-- The next free index gets the value. Only arrays are pushed to. -/
def push (o : JsonObject) (value : JsonValue) : JsonObject :=
  if o.m_is_array then o.set (common_to_string o.m_members.length) value else o

mutual

def read_json_key_value : Nat → Bytes → JsonValue → Nat → Except Stop (JsonValue × Nat)
  | 0, _, _, _ => .error .unfinished
  | fuel + 1, str, result, startPos => do
    if str.length ≤ startPos then throw .refused
    let startPos ← read_whitespace str startPos
    let c := charAt str startPos
    if c = quote then read_string str startPos
    else if c = minus ∨ isdigit c then read_number str startPos
    else if c = openBrace then
      let (obj, startPos) ← read_object fuel {} str startPos
      return (.ofObject obj, startPos)
    else if c = openBracket then
      -- the overload that fills a new array object
      let (obj, startPos) ← read_array fuel {} str startPos
      return (.ofObject obj, startPos)
    else if c = 116 ∨ c = 84 then read_bool str startPos (ascii "true")
    else if c = 102 ∨ c = 70 then read_bool str startPos (ascii "false")
    else if c = 110 ∨ c = 78 then
      let startPos ← read_null str startPos
      return (result, startPos)
    else throw .refused

def read_object : Nat → JsonObject → Bytes → Nat → Except Stop (JsonObject × Nat)
  | 0, _, _, _ => .error .unfinished
  | fuel + 1, o, str, startPos => do
    if size_left str startPos < 2 then throw .refused
    if charAt str startPos ≠ openBrace then throw .refused
    object_loop fuel o str (uint32 (startPos + 1))

def object_loop : Nat → JsonObject → Bytes → Nat → Except Stop (JsonObject × Nat)
  | 0, _, _, _ => .error .unfinished
  | fuel + 1, o, str, startPos => do
    if str.length ≤ startPos then throw .refused
    if charAt str startPos = closeBrace then return (o, uint32 (startPos + 1))
    let (key, startPos) ← read_json_key_value fuel str .T_UNDEFINED startPos
    match key with
    | .T_STRING key =>
      let (c, startPos) ← read_delimiter str startPos
      if c ≠ colon then throw .refused
      let (value, startPos) ← read_json_key_value fuel str .T_UNDEFINED startPos
      let o := o.set key value
      let (c, startPos) ← read_delimiter str startPos
      if c = closeBrace then return (o, startPos)
      else if c = comma then object_loop fuel o str startPos
      else throw .refused
    | _ => throw .refused

def read_array : Nat → JsonObject → Bytes → Nat → Except Stop (JsonObject × Nat)
  | 0, _, _, _ => .error .unfinished
  | fuel + 1, o, str, startPos => do
    let o := { o with m_is_array := true }
    if size_left str startPos < 2 then throw .refused
    if charAt str startPos ≠ openBracket then throw .refused
    array_loop fuel o str (uint32 (startPos + 1))

def array_loop : Nat → JsonObject → Bytes → Nat → Except Stop (JsonObject × Nat)
  | 0, _, _, _ => .error .unfinished
  | fuel + 1, o, str, startPos => do
    if str.length ≤ startPos then throw .refused
    if charAt str startPos = closeBracket then return (o, uint32 (startPos + 1))
    let (value, startPos) ← read_json_key_value fuel str .T_UNDEFINED startPos
    let o := o.push value
    let (c, startPos) ← read_delimiter str startPos
    if c = closeBracket then return (o, startPos)
    else if c = comma then array_loop fuel o str startPos
    else throw .refused

end

/-- Enough fuel for any text the cursor can pass through. -/
def fuelFor (str : Bytes) : Nat := 3 * (str.length + 1)

def read_text (o : JsonObject) (str : Bytes) : Except Stop (JsonObject × Nat) := do
  if str.length = 0 then throw .refused
  let startPos ← read_whitespace str 0
  if charAt str startPos = openBrace then read_object (fuelFor str) o str startPos
  else if charAt str startPos = openBracket then read_array (fuelFor str) o str startPos
  else throw .refused

/-- The object after `read_from_string` returned true, `none` if it did not. -/
def read_from_string (o : JsonObject) (str : Bytes) : Option JsonObject :=
  match o.read_text str with
  | .ok (o, _) => some o
  | .error _ => none

end JsonObject

end RtcClient
