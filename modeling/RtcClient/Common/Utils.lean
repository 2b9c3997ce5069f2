import RtcClient.Lib.Bytes
/-!
# Strings and numbers

`std::string` is a byte string. Numbers are read as `atoi` and `atol` read them: white
space, a sign, digits, and nothing else looked at. A value that does not fit a `long`
becomes the nearest one that does, and `atoi` is that `long` converted to `int`.
-/

namespace RtcClient

open Lib

/-- The text a `const char*` shows: everything before the first NUL. -/
def c_str (s : Bytes) : Bytes := s.takeWhile (· != 0)

/-- The bytes of a text of single-byte characters. -/
def ascii (s : String) : Bytes := s.toList.map (fun c => UInt8.ofNat c.toNat)

/-- `common_to_string` of the integer types. -/
def common_to_string (value : Int) : Bytes := ascii (toString value)

/-- `common_to_string(bool)`. -/
def common_to_string_bool (value : Bool) : Bytes := if value then ascii "true" else ascii "false"

/-- `common_to_string(double)`, which prints with `%f`. -/
def common_to_string_double (value : Float) : Bytes := ascii value.toString

def isspace (c : UInt8) : Bool := c == 32 || (9 ≤ c && c ≤ 13)

def isdigit (c : UInt8) : Bool := 48 ≤ c && c ≤ 57

/-- The value of a string of digits. -/
def digits_value (s : Bytes) : Nat := s.foldl (fun n c => 10 * n + (c.toNat - 48)) 0

/-- The sign and the rest. -/
def split_sign : Bytes → Bool × Bytes
  | 45 :: s => (true, s)
  | 43 :: s => (false, s)
  | s => (false, s)

def string_to_long (str : Bytes) : Int :=
  let (negative, s) := split_sign ((c_str str).dropWhile isspace)
  let n : Int := digits_value (s.takeWhile isdigit)
  if negative then max (-n) (-2 ^ 63) else min n (2 ^ 63 - 1)

def string_to_int (str : Bytes) : Int := int32 (string_to_long str)

/-- `atof` of the digits and points the JSON reader collects: it stops at a second point. -/
def string_to_double (str : Bytes) : Float :=
  let whole := str.takeWhile isdigit
  let fraction := ((str.drop whole.length).drop 1).takeWhile isdigit
  Float.ofScientific (digits_value (whole ++ fraction)) true fraction.length

def string_to_lower (str : Bytes) : Bytes := str.map (fun c => if 65 ≤ c ∧ c ≤ 90 then c + 32 else c)

/-- The loop of `string_replace` on the text from `lastPos` on. -/
def replace_loop (search replacement : Bytes) : Bytes → Bytes
  | [] => []
  | c :: rest =>
    if search.isPrefixOf (c :: rest) then
      replacement ++ replace_loop search replacement (rest.drop (search.length - 1))
    else c :: replace_loop search replacement rest
termination_by str => str.length
decreasing_by all_goals simp; try omega

def string_replace (str search replacement : Bytes) : Bytes :=
  if search = replacement then str else if search = [] then str else replace_loop search replacement str

end RtcClient
