import RtcClient.Common.JsonTermination
import RtcClient.Lib.Logged
/-!
# The cursor of the JSON reader

The readers again, with the cursor they share as a variable and a log of every character
they look at, every `str.size() - startPos` they compute, every move of the cursor and
every call that ends, also those that return false. They do what the readers of
`JsonReader` do, and all of it is in range.
-/

namespace RtcClient.JsonObject

open Lib

inductive Reader where
  | read_whitespace
  | read_delimiter
  | read_string
  | read_number
  | read_bool
  | read_null
  | read_object
  | read_array
  | read_json_key_value
deriving DecidableEq, Repr

inductive Access where
  /-- `str[i]`, or `str.substr(i, …)`. -/
  | subscript (i : Nat)
  /-- `str.size() - startPos`. -/
  | size_left (startPos : Nat)
  /-- An assignment to `startPos`. -/
  | moved (before after : Nat)
  /-- A call that has ended, with the cursor before and after it and what it returned. -/
  | call (reader : Reader) (before after : Nat) (result : Bool)
deriving DecidableEq, Repr

abbrev Scanner (A : Type) : Type := Logged.Program Nat Access Stop A

namespace Scan

open Logged

/-! ## The readers -/

def subscript (str : Bytes) (i : Nat) : Scanner UInt8 := do
  record (.subscript i)
  return charAt str i

def size_left (str : Bytes) : Scanner Nat := do
  let startPos ← position
  record (.size_left startPos)
  return JsonObject.size_left str startPos

/-- `startPos = (uint32_t)n`. -/
def moveTo (n : Nat) : Scanner Unit := do
  let startPos ← position
  record (.moved startPos (uint32 n))
  move (uint32 n)

def calling {A : Type} (reader : Reader) (x : Scanner A) : Scanner A := called (.call reader) x

def whitespace_loop (str : Bytes) : Nat → Scanner Unit
  | 0 => throw .unfinished
  | fuel + 1 => do
    let startPos ← position
    if startPos < str.length then
      let c ← subscript str startPos
      if isBlank c then
        moveTo (startPos + 1)
        whitespace_loop str fuel
      else return ()
    else return ()

def read_whitespace (str : Bytes) : Scanner Unit := calling .read_whitespace (whitespace_loop str (str.length + 1))

def read_delimiter (str : Bytes) : Scanner UInt8 := calling .read_delimiter do
  read_whitespace str
  let left ← size_left str
  if left < 1 then throw .refused
  else
    let startPos ← position
    let c ← subscript str startPos
    moveTo (startPos + 1)
    read_whitespace str
    return c

/-- `pos - 1` is a `size_t`. -/
def string_loop (str : Bytes) : Nat → Nat → Scanner Bytes
  | 0, _ => throw .unfinished
  | fuel + 1, pos =>
    match find_char str quote pos with
    | none => throw .refused
    | some pos => do
      let c ← subscript str ((pos + 2 ^ 64 - 1) % 2 ^ 64)
      if c = backslash then string_loop str fuel (pos + 1)
      else
        let startPos ← position
        record (.subscript startPos)
        moveTo (pos + 1)
        return (str.drop startPos).take (pos - startPos)

def read_string (str : Bytes) : Scanner JsonValue := calling .read_string do
  let left ← size_left str
  if left < 2 then throw .refused
  else
    let startPos ← position
    let c ← subscript str startPos
    if c ≠ quote then throw .refused
    else
      moveTo (startPos + 1)
      let startPos ← position
      let value ← string_loop str (str.length + 1) startPos
      return .T_STRING (unescape_string value)

def number_loop (str : Bytes) : Nat → Bytes → Bool → Scanner (Bytes × Bool)
  | 0, _, _ => throw .unfinished
  | fuel + 1, floatStr, isFloat => do
    let startPos ← position
    if startPos < str.length then
      let c ← subscript str startPos
      if isdigit c then
        moveTo (startPos + 1)
        number_loop str fuel (floatStr ++ [c]) isFloat
      else if c = point then
        moveTo (startPos + 1)
        number_loop str fuel (floatStr ++ [c]) true
      else return (floatStr, isFloat)
    else return (floatStr, isFloat)

def read_number (str : Bytes) : Scanner JsonValue := calling .read_number do
  let (floatStr, isFloat) ← number_loop str (str.length + 1) [] false
  if floatStr = [] then throw .refused
  else if isFloat then return .T_DOUBLE (string_to_double floatStr)
  else return .T_INT64 (Int64.ofInt (string_to_long floatStr))

def read_bool (str : Bytes) (wanted : Bytes) : Scanner JsonValue := calling .read_bool do
  let left ← size_left str
  if left < wanted.length then throw .refused
  else
    let startPos ← position
    record (.subscript startPos)
    if string_to_lower ((str.drop startPos).take wanted.length) ≠ wanted then throw .refused
    else
      moveTo (startPos + wanted.length)
      return .T_BOOL (wanted = ascii "true")

def read_null (str : Bytes) : Scanner Unit := calling .read_null do
  let left ← size_left str
  if left < 4 then throw .refused
  else
    let startPos ← position
    record (.subscript startPos)
    if string_to_lower ((str.drop startPos).take 4) ≠ ascii "null" then throw .refused
    else
      moveTo (startPos + 4)
      return ()

mutual

def read_json_key_value : Nat → Bytes → JsonValue → Scanner JsonValue
  | 0, _, _ => throw .unfinished
  | fuel + 1, str, result => calling .read_json_key_value do
    let startPos ← position
    if str.length ≤ startPos then throw .refused
    else
      read_whitespace str
      let startPos ← position
      let c ← subscript str startPos
      if c = quote then read_string str
      else if c = minus ∨ isdigit c then read_number str
      else if c = openBrace then
        let obj ← read_object fuel {} str
        return .ofObject obj
      else if c = openBracket then
        let obj ← read_array fuel {} str
        return .ofObject obj
      else if c = 116 ∨ c = 84 then read_bool str (ascii "true")
      else if c = 102 ∨ c = 70 then read_bool str (ascii "false")
      else if c = 110 ∨ c = 78 then
        read_null str
        return result
      else throw .refused

def read_object : Nat → JsonObject → Bytes → Scanner JsonObject
  | 0, _, _ => throw .unfinished
  | fuel + 1, o, str => calling .read_object do
    let left ← size_left str
    if left < 2 then throw .refused
    else
      let startPos ← position
      let c ← subscript str startPos
      if c ≠ openBrace then throw .refused
      else
        moveTo (startPos + 1)
        object_loop fuel o str

def object_loop : Nat → JsonObject → Bytes → Scanner JsonObject
  | 0, _, _ => throw .unfinished
  | fuel + 1, o, str => do
    let startPos ← position
    if str.length ≤ startPos then throw .refused
    else
      let c ← subscript str startPos
      if c = closeBrace then
        moveTo (startPos + 1)
        return o
      else
        let key ← read_json_key_value fuel str .T_UNDEFINED
        match key with
        | .T_STRING key =>
          let c ← read_delimiter str
          if c ≠ colon then throw .refused
          else
            let value ← read_json_key_value fuel str .T_UNDEFINED
            let c ← read_delimiter str
            if c = closeBrace then return o.set key value
            else if c = comma then object_loop fuel (o.set key value) str
            else throw .refused
        | _ => throw .refused

def read_array : Nat → JsonObject → Bytes → Scanner JsonObject
  | 0, _, _ => throw .unfinished
  | fuel + 1, o, str => calling .read_array do
    let left ← size_left str
    if left < 2 then throw .refused
    else
      let startPos ← position
      let c ← subscript str startPos
      if c ≠ openBracket then throw .refused
      else
        moveTo (startPos + 1)
        array_loop fuel { o with m_is_array := true } str

def array_loop : Nat → JsonObject → Bytes → Scanner JsonObject
  | 0, _, _ => throw .unfinished
  | fuel + 1, o, str => do
    let startPos ← position
    if str.length ≤ startPos then throw .refused
    else
      let c ← subscript str startPos
      if c = closeBracket then
        moveTo (startPos + 1)
        return o
      else
        let value ← read_json_key_value fuel str .T_UNDEFINED
        let c ← read_delimiter str
        if c = closeBracket then return o.push value
        else if c = comma then array_loop fuel (o.push value) str
        else throw .refused

end

/-- `read_from_string`; the cursor is its local variable, set to 0. -/
def read_from_string (o : JsonObject) (str : Bytes) : Scanner JsonObject := do
  if str.length = 0 then throw .refused
  else
    read_whitespace str
    let startPos ← position
    let c ← subscript str startPos
    if c = openBrace then read_object (fuelFor str) o str
    else if c = openBracket then read_array (fuelFor str) o str
    else throw .refused

/-! ## What is in range -/

/-- The cursor does not go back, and does not leave a text of `n` characters. -/
def Forward (n before after : Nat) : Prop := before ≤ after ∧ (before ≤ n → after ≤ n)

instance (n : Nat) : Std.Refl (Forward n) := ⟨fun _ => ⟨Nat.le_refl _, id⟩⟩

instance (n : Nat) : IsTrans Nat (Forward n) := ⟨fun _ _ _ h h' => ⟨Nat.le_trans h.1 h'.1, fun hn => h'.2 (h.2 hn)⟩⟩

/-- What may be done with a text of `n` characters. A value that was read takes at least one. -/
def InRange (n : Nat) : Access → Prop
  | .subscript i => i ≤ n
  | .size_left startPos => startPos ≤ n
  | .moved before after => before ≤ after ∧ after ≤ n
  | .call reader before after result =>
    before ≤ after ∧ after ≤ n ∧ (reader = .read_json_key_value → result = true → before < after)

/-- From `s`, the scanner does what the reader without a log does, and all of it is in range. -/
abbrev Follows {A B : Type} (str : Bytes) (view : A → Nat → B) (x : Scanner A) (s : Logged Nat Access)
    (f : Except Stop B) : Prop :=
  Does (Forward str.length) (InRange str.length) view x s f

section
variable {A B : Type} {str : Bytes} {view : A → Nat → B} {s : Logged Nat Access} {f : Except Stop B}

theorem follows_subscript {i : Nat} {y : UInt8 → Scanner A} (hi : i ≤ str.length)
    (hy : ∀ s', s'.pos = s.pos → Follows str view (y (charAt str i)) s' f) :
    Follows str view (subscript str i >>= y) s f :=
  Does.after (c := charAt str i) rfl ((Good.refl s).record hi) (hy _ rfl)

theorem follows_size_left {y : Nat → Scanner A} (hin : s.pos ≤ str.length)
    (hy : ∀ s', s'.pos = s.pos → Follows str view (y (JsonObject.size_left str s.pos)) s' f) :
    Follows str view (size_left str >>= y) s f :=
  Does.after (c := JsonObject.size_left str s.pos) rfl ((Good.refl s).record hin) (hy _ rfl)

theorem follows_moveTo {n : Nat} {y : Unit → Scanner A} (hs : str.length < 2 ^ 32) (hle : s.pos ≤ n)
    (hn : n ≤ str.length) (hy : ∀ s', s'.pos = n → Follows str view (y ()) s' f) :
    Follows str view (moveTo n >>= y) s f := by
  have hcast : uint32 n = n := uint32_of_lt (by omega)
  have hmoved : InRange str.length (.moved s.pos (uint32 n)) := by
    rw [hcast]
    exact ⟨hle, hn⟩
  have hlogged := (Good.refl (R := Forward str.length) s).record hmoved
  have hgood : Good (Forward str.length) (InRange str.length) s ⟨uint32 n, s.log ++ [.moved s.pos (uint32 n)]⟩ := by
    refine ⟨?_, hlogged.logged⟩
    rw [hcast]
    exact ⟨hle, fun _ => hn⟩
  exact Does.after (c := ()) rfl hgood (hy _ hcast)

/-- A call of a reader that may succeed without taking anything. -/
theorem follows_calling {reader : Reader} {x : Scanner A} (hreader : reader ≠ .read_json_key_value)
    (hin : s.pos ≤ str.length) (h : Follows str view x s f) : Follows str view (calling reader x) s f :=
  Does.called h (fun _ _ _ hR => ⟨hR.1, hR.2 hin, fun he => absurd he hreader⟩)
    fun _ hR => ⟨hR.1, hR.2 hin, fun he => absurd he hreader⟩

end

/-! ## Tokens -/

section
variable {str : Bytes}

theorem whitespace_loop_follows (hs : str.length < 2 ^ 32) (fuel : Nat) (s : Logged Nat Access)
    (hin : s.pos ≤ str.length) :
    Follows str (fun _ p => p) (whitespace_loop str fuel) s (JsonObject.whitespace_loop str fuel s.pos) := by
  induction fuel generalizing s with
  | zero => exact .fail _ _ _
  | succ fuel ih =>
    rw [whitespace_loop, JsonObject.whitespace_loop]
    refine .position (.ite (fun hlt => ?_) fun _ => .ret _ () _)
    refine follows_subscript hin fun s₁ h₁ => ?_
    rw [← h₁] at hlt ⊢
    refine .ite (fun _ => ?_) fun _ => .ret _ () _
    refine follows_moveTo hs (Nat.le_succ _) hlt fun s₂ h₂ => ?_
    rw [uint32_of_lt (by omega), ← h₂]
    exact ih s₂ (by omega)

theorem read_whitespace_follows (hs : str.length < 2 ^ 32) (s : Logged Nat Access) (hin : s.pos ≤ str.length) :
    Follows str (fun _ p => p) (read_whitespace str) s (JsonObject.read_whitespace str s.pos) :=
  follows_calling (by decide) hin (whitespace_loop_follows hs _ s hin)

theorem read_delimiter_follows (hs : str.length < 2 ^ 32) (s : Logged Nat Access) (hin : s.pos ≤ str.length) :
    Follows str Prod.mk (read_delimiter str) s (JsonObject.read_delimiter str s.pos) := by
  refine follows_calling (by decide) hin ?_
  unfold JsonObject.read_delimiter
  refine .seq (read_whitespace_follows hs s hin) fun _ s₁ _ hR₁ => ?_
  have h₁ := hR₁.2 hin
  refine follows_size_left h₁ fun s₂ h₂ => ?_
  rw [← h₂] at h₁ ⊢
  dsimp only
  refine .ite (fun _ => .fail _ _ _) fun hleft => ?_
  have hlt : s₂.pos < str.length := by
    unfold JsonObject.size_left at hleft
    omega
  refine .position (follows_subscript h₁ fun s₃ h₃ => ?_)
  rw [← h₃] at hlt ⊢
  refine follows_moveTo hs (Nat.le_succ _) hlt fun s₄ h₄ => ?_
  rw [uint32_of_lt (by omega), ← h₄]
  exact .seq (read_whitespace_follows hs s₄ (by omega)) fun _ s₅ _ _ => .ret Prod.mk _ s₅

theorem string_loop_follows (hs : str.length < 2 ^ 32) (fuel : Nat) (s : Logged Nat Access) {pos : Nat}
    (hpos : 0 < s.pos) (hle : s.pos ≤ pos) (hin : s.pos ≤ str.length) :
    Follows str Prod.mk (string_loop str fuel pos) s (JsonObject.string_loop str s.pos fuel pos) := by
  induction fuel generalizing s pos with
  | zero => exact .fail _ _ _
  | succ fuel ih =>
    rw [string_loop, JsonObject.string_loop]
    cases hfind : find_char str quote pos with
    | none => exact .fail _ _ _
    | some found =>
      obtain ⟨hge, hlt⟩ := find_char_some hfind
      dsimp only
      rw [show (found + 2 ^ 64 - 1) % 2 ^ 64 = found - 1 by omega]
      refine follows_subscript (by omega) fun s₁ h₁ => ?_
      rw [← h₁] at hpos hle hin ⊢
      refine .ite (fun _ => ih s₁ hpos (by omega) hin) fun _ => ?_
      refine .position (.record (show s₁.pos ≤ str.length from hin) fun s₂ h₂ => ?_)
      refine follows_moveTo hs (by omega) hlt fun s₃ h₃ => ?_
      rw [uint32_of_lt (by omega), ← h₃]
      exact .ret Prod.mk _ s₃

theorem read_string_follows (hs : str.length < 2 ^ 32) (s : Logged Nat Access) (hin : s.pos ≤ str.length) :
    Follows str Prod.mk (read_string str) s (JsonObject.read_string str s.pos) := by
  refine follows_calling (by decide) hin ?_
  unfold JsonObject.read_string
  refine follows_size_left hin fun s₁ h₁ => ?_
  rw [← h₁] at hin ⊢
  refine .ite (fun _ => .fail _ _ _) fun hleft => ?_
  have hlt : s₁.pos < str.length := by
    unfold JsonObject.size_left at hleft
    omega
  refine .position (follows_subscript hin fun s₂ h₂ => ?_)
  rw [← h₂] at hlt ⊢
  refine .ite (fun _ => .fail _ _ _) fun _ => ?_
  refine follows_moveTo hs (Nat.le_succ _) hlt fun s₃ h₃ => ?_
  rw [uint32_of_lt (by omega), ← h₃]
  refine .position (.seq (string_loop_follows hs _ s₃ (by omega) (Nat.le_refl _) (by omega)) fun value s₄ _ _ => ?_)
  exact .ret Prod.mk _ s₄

theorem number_loop_follows (hs : str.length < 2 ^ 32) (fuel : Nat) (s : Logged Nat Access) (floatStr : Bytes)
    (isFloat : Bool) (hin : s.pos ≤ str.length) :
    Follows str (fun r p => (r.1, r.2, p)) (number_loop str fuel floatStr isFloat) s
      (JsonObject.number_loop str fuel s.pos floatStr isFloat) := by
  induction fuel generalizing s floatStr isFloat with
  | zero => exact .fail _ _ _
  | succ fuel ih =>
    rw [number_loop, JsonObject.number_loop]
    refine .position (.ite (fun hlt => ?_) fun _ => .ret _ (floatStr, isFloat) _)
    refine follows_subscript hin fun s₁ h₁ => ?_
    rw [← h₁] at hlt ⊢
    have hnext : ∀ isFloat, Follows str (fun r p => (r.1, r.2, p))
        (moveTo (s₁.pos + 1) >>= fun _ => number_loop str fuel (floatStr ++ [charAt str s₁.pos]) isFloat) s₁
        (JsonObject.number_loop str fuel (uint32 (s₁.pos + 1)) (floatStr ++ [charAt str s₁.pos]) isFloat) := by
      intro isFloat
      refine follows_moveTo hs (Nat.le_succ _) hlt fun s₂ h₂ => ?_
      rw [uint32_of_lt (by omega), ← h₂]
      exact ih s₂ _ _ (by omega)
    exact .ite (fun _ => hnext isFloat) fun _ => .ite (fun _ => hnext true) fun _ => .ret _ (floatStr, isFloat) _

theorem read_number_follows (hs : str.length < 2 ^ 32) (s : Logged Nat Access) (hin : s.pos ≤ str.length) :
    Follows str Prod.mk (read_number str) s (JsonObject.read_number str s.pos) := by
  refine follows_calling (by decide) hin ?_
  unfold JsonObject.read_number
  refine .seq (number_loop_follows hs _ s [] false hin) fun r s₁ _ _ => ?_
  exact .ite (fun _ => .fail _ _ _) fun _ => .ite (fun _ => .ret Prod.mk _ s₁) fun _ => .ret Prod.mk _ s₁

theorem read_bool_follows (hs : str.length < 2 ^ 32) (wanted : Bytes) (s : Logged Nat Access)
    (hin : s.pos ≤ str.length) :
    Follows str Prod.mk (read_bool str wanted) s (JsonObject.read_bool str s.pos wanted) := by
  refine follows_calling (by decide) hin ?_
  unfold JsonObject.read_bool
  refine follows_size_left hin fun s₁ h₁ => ?_
  rw [← h₁] at hin ⊢
  refine .ite (fun _ => .fail _ _ _) fun hleft => ?_
  have hfits : s₁.pos + wanted.length ≤ str.length := by
    unfold JsonObject.size_left at hleft
    omega
  refine .position (.record (show s₁.pos ≤ str.length from hin) fun s₂ h₂ => ?_)
  rw [← h₂] at hfits ⊢
  refine .ite (fun _ => .fail _ _ _) fun _ => ?_
  refine follows_moveTo hs (Nat.le_add_right _ _) hfits fun s₃ h₃ => ?_
  rw [uint32_of_lt (by omega), ← h₃]
  exact .ret Prod.mk _ s₃

theorem read_null_follows (hs : str.length < 2 ^ 32) (s : Logged Nat Access) (hin : s.pos ≤ str.length) :
    Follows str (fun _ p => p) (read_null str) s (JsonObject.read_null str s.pos) := by
  refine follows_calling (by decide) hin ?_
  unfold JsonObject.read_null
  refine follows_size_left hin fun s₁ h₁ => ?_
  rw [← h₁] at hin ⊢
  refine .ite (fun _ => .fail _ _ _) fun hleft => ?_
  have hfits : s₁.pos + 4 ≤ str.length := by
    unfold JsonObject.size_left at hleft
    omega
  refine .position (.record (show s₁.pos ≤ str.length from hin) fun s₂ h₂ => ?_)
  rw [← h₂] at hfits ⊢
  refine .ite (fun _ => .fail _ _ _) fun _ => ?_
  refine follows_moveTo hs (Nat.le_add_right _ _) hfits fun s₃ h₃ => ?_
  rw [uint32_of_lt (by omega), ← h₃]
  exact .ret _ () s₃

/-- An opening bracket, then the loop behind it. -/
theorem opening_follows {bracket : UInt8} {loop : Scanner JsonObject} {f : Nat → Except Stop (JsonObject × Nat)}
    {s : Logged Nat Access} (hs : str.length < 2 ^ 32) (hin : s.pos ≤ str.length)
    (hloop : ∀ s', s'.pos ≤ str.length → Follows str Prod.mk loop s' (f s'.pos)) :
    Follows str Prod.mk
      (do
        let left ← size_left str
        if left < 2 then throw .refused
        else
          let startPos ← position
          let c ← subscript str startPos
          if c ≠ bracket then throw .refused
          else
            moveTo (startPos + 1)
            loop)
      s
      (if JsonObject.size_left str s.pos < 2 then .error .refused
        else if charAt str s.pos ≠ bracket then .error .refused else f (uint32 (s.pos + 1))) := by
  refine follows_size_left hin fun s₁ h₁ => ?_
  rw [← h₁] at hin ⊢
  refine .ite (fun _ => .fail _ _ _) fun hleft => ?_
  have hlt : s₁.pos < str.length := by
    unfold JsonObject.size_left at hleft
    omega
  refine .position (follows_subscript hin fun s₂ h₂ => ?_)
  rw [← h₂] at hlt ⊢
  refine .ite (fun _ => .fail _ _ _) fun _ => ?_
  refine follows_moveTo hs (Nat.le_succ _) hlt fun s₃ h₃ => ?_
  rw [uint32_of_lt (by omega), ← h₃]
  exact hloop s₃ (by omega)

/-! ## Values -/

/-- Every reader, with that much fuel. -/
structure Followed (str : Bytes) (fuel : Nat) : Prop where
  value : ∀ s : Logged Nat Access, s.pos ≤ str.length →
    Follows str Prod.mk (read_json_key_value fuel str .T_UNDEFINED) s
      (JsonObject.read_json_key_value fuel str .T_UNDEFINED s.pos)
  object : ∀ (o : JsonObject) (s : Logged Nat Access), s.pos ≤ str.length →
    Follows str Prod.mk (read_object fuel o str) s (JsonObject.read_object fuel o str s.pos)
  members : ∀ (o : JsonObject) (s : Logged Nat Access), s.pos ≤ str.length →
    Follows str Prod.mk (object_loop fuel o str) s (JsonObject.object_loop fuel o str s.pos)
  array : ∀ (o : JsonObject) (s : Logged Nat Access), s.pos ≤ str.length →
    Follows str Prod.mk (read_array fuel o str) s (JsonObject.read_array fuel o str s.pos)
  elements : ∀ (o : JsonObject) (s : Logged Nat Access), s.pos ≤ str.length →
    Follows str Prod.mk (array_loop fuel o str) s (JsonObject.array_loop fuel o str s.pos)

section
variable {fuel : Nat} {s : Logged Nat Access}

theorem Followed.read_json_key_value (ih : Followed str fuel) (hs : str.length < 2 ^ 32) (hin : s.pos ≤ str.length) :
    Follows str Prod.mk (read_json_key_value (fuel + 1) str .T_UNDEFINED) s
      (JsonObject.read_json_key_value (fuel + 1) str .T_UNDEFINED s.pos) := by
  rw [Scan.read_json_key_value]
  refine Does.called ?_ (fun v pos hread hR => ⟨hR.1, hR.2 hin, fun _ _ => read_json_key_value_advances hs hin hread⟩)
    fun pos hR => ⟨hR.1, hR.2 hin, fun _ h => Bool.noConfusion h⟩
  rw [JsonObject.read_json_key_value]
  refine .position (.ite (fun _ => .fail _ _ _) fun _ => ?_)
  refine .seq (read_whitespace_follows hs s hin) fun _ s₁ _ hR₁ => ?_
  have h₁ := hR₁.2 hin
  refine .position (follows_subscript h₁ fun s₂ h₂ => ?_)
  rw [← h₂] at h₁ ⊢
  refine .ite (fun _ => read_string_follows hs s₂ h₁) fun _ => ?_
  refine .ite (fun _ => read_number_follows hs s₂ h₁) fun _ => ?_
  refine .ite (fun _ => .seq (ih.object {} s₂ h₁) fun obj s₃ _ _ => .ret Prod.mk _ s₃) fun _ => ?_
  refine .ite (fun _ => .seq (ih.array {} s₂ h₁) fun obj s₃ _ _ => .ret Prod.mk _ s₃) fun _ => ?_
  refine .ite (fun _ => read_bool_follows hs _ s₂ h₁) fun _ => ?_
  refine .ite (fun _ => read_bool_follows hs _ s₂ h₁) fun _ => ?_
  exact .ite (fun _ => .seq (read_null_follows hs s₂ h₁) fun _ s₃ _ _ => .ret Prod.mk _ s₃) fun _ => .fail _ _ _

theorem Followed.read_object (ih : Followed str fuel) (hs : str.length < 2 ^ 32) (o : JsonObject)
    (hin : s.pos ≤ str.length) :
    Follows str Prod.mk (read_object (fuel + 1) o str) s (JsonObject.read_object (fuel + 1) o str s.pos) := by
  rw [Scan.read_object, JsonObject.read_object]
  exact follows_calling (by decide) hin (opening_follows hs hin fun s₁ h₁ => ih.members o s₁ h₁)

theorem Followed.read_array (ih : Followed str fuel) (hs : str.length < 2 ^ 32) (o : JsonObject)
    (hin : s.pos ≤ str.length) :
    Follows str Prod.mk (read_array (fuel + 1) o str) s (JsonObject.read_array (fuel + 1) o str s.pos) := by
  rw [Scan.read_array, JsonObject.read_array]
  exact follows_calling (by decide) hin (opening_follows hs hin fun s₁ h₁ => ih.elements _ s₁ h₁)

theorem Followed.array_loop (ih : Followed str fuel) (hs : str.length < 2 ^ 32) (o : JsonObject)
    (hin : s.pos ≤ str.length) :
    Follows str Prod.mk (array_loop (fuel + 1) o str) s (JsonObject.array_loop (fuel + 1) o str s.pos) := by
  rw [Scan.array_loop, JsonObject.array_loop]
  refine .position (.ite (fun _ => .fail _ _ _) fun hlt => ?_)
  refine follows_subscript hin fun s₁ h₁ => ?_
  rw [← h₁] at hin hlt ⊢
  refine .ite (fun _ => ?_) fun _ => ?_
  · refine follows_moveTo hs (Nat.le_succ _) (by omega) fun s₂ h₂ => ?_
    rw [uint32_of_lt (by omega), ← h₂]
    exact .ret Prod.mk o s₂
  · refine .seq (ih.value s₁ hin) fun value s₂ _ hR₂ => ?_
    refine .seq (read_delimiter_follows hs s₂ (hR₂.2 hin)) fun c s₃ _ hR₃ => ?_
    refine .ite (fun _ => .ret Prod.mk _ s₃) fun _ => .ite (fun _ => ?_) fun _ => .fail _ _ _
    exact ih.elements _ s₃ (hR₃.2 (hR₂.2 hin))

theorem Followed.object_loop (ih : Followed str fuel) (hs : str.length < 2 ^ 32) (o : JsonObject)
    (hin : s.pos ≤ str.length) :
    Follows str Prod.mk (object_loop (fuel + 1) o str) s (JsonObject.object_loop (fuel + 1) o str s.pos) := by
  rw [Scan.object_loop, JsonObject.object_loop]
  refine .position (.ite (fun _ => .fail _ _ _) fun hlt => ?_)
  refine follows_subscript hin fun s₁ h₁ => ?_
  rw [← h₁] at hin hlt ⊢
  refine .ite (fun _ => ?_) fun _ => ?_
  · refine follows_moveTo hs (Nat.le_succ _) (by omega) fun s₂ h₂ => ?_
    rw [uint32_of_lt (by omega), ← h₂]
    exact .ret Prod.mk o s₂
  · refine .seq (ih.value s₁ hin) fun key s₂ _ hR₂ => ?_
    have h₂ := hR₂.2 hin
    cases key with
    | T_STRING key =>
      dsimp only
      refine .seq (read_delimiter_follows hs s₂ h₂) fun c s₃ _ hR₃ => ?_
      refine .ite (fun _ => .fail _ _ _) fun _ => ?_
      refine .seq (ih.value s₃ (hR₃.2 h₂)) fun value s₄ _ hR₄ => ?_
      have h₄ := hR₄.2 (hR₃.2 h₂)
      refine .seq (read_delimiter_follows hs s₄ h₄) fun c s₅ _ hR₅ => ?_
      refine .ite (fun _ => .ret Prod.mk _ s₅) fun _ => .ite (fun _ => ?_) fun _ => .fail _ _ _
      exact ih.members _ s₅ (hR₅.2 h₄)
    | _ => exact .fail _ _ _

end

theorem followed (hs : str.length < 2 ^ 32) (fuel : Nat) : Followed str fuel := by
  induction fuel with
  | zero =>
    refine ⟨fun _ _ => ?_, fun _ _ _ => ?_, fun _ _ _ => ?_, fun _ _ _ => ?_, fun _ _ _ => ?_⟩
    · rw [Scan.read_json_key_value, JsonObject.read_json_key_value]
      exact .fail _ _ _
    · rw [Scan.read_object, JsonObject.read_object]
      exact .fail _ _ _
    · rw [Scan.object_loop, JsonObject.object_loop]
      exact .fail _ _ _
    · rw [Scan.read_array, JsonObject.read_array]
      exact .fail _ _ _
    · rw [Scan.array_loop, JsonObject.array_loop]
      exact .fail _ _ _
  | succ fuel ih =>
    exact ⟨fun _ => ih.read_json_key_value hs, fun o _ => ih.read_object hs o, fun o _ => ih.object_loop hs o,
      fun o _ => ih.read_array hs o, fun o _ => ih.array_loop hs o⟩

/-- The whole reader, from the start of the text. -/
theorem read_from_string_follows (hs : str.length < 2 ^ 32) (o : JsonObject) :
    Follows str Prod.mk (read_from_string o str) ⟨0, []⟩ (o.read_text str) := by
  unfold read_from_string read_text
  refine .ite (fun _ => .fail _ _ _) fun _ => ?_
  refine .seq (read_whitespace_follows hs _ (Nat.zero_le _)) fun _ s₁ _ hR₁ => ?_
  have h₁ := hR₁.2 (Nat.zero_le _)
  refine .position (follows_subscript h₁ fun s₂ h₂ => ?_)
  rw [← h₂] at h₁ ⊢
  refine .ite (fun _ => (followed hs _).object o s₂ h₁) fun _ => ?_
  exact .ite (fun _ => (followed hs _).array o s₂ h₁) fun _ => .fail _ _ _

/-- On any text the reader ends, having stayed in range, and gives what `read_text` gives. -/
theorem reader_in_range (hs : str.length < 2 ^ 32) (o : JsonObject) :
    ∃ (startPos : Nat) (log : List Access), (∀ access ∈ log, InRange str.length access) ∧
      ((∃ o', read_from_string o str ⟨0, []⟩ = .ok o' ⟨startPos, log⟩ ∧ o.read_text str = .ok (o', startPos)) ∨
        read_from_string o str ⟨0, []⟩ = .error .refused ⟨startPos, log⟩ ∧ o.read_text str = .error .refused) := by
  rcases (read_from_string_follows hs o).cases with ⟨o', s, hrun, htext, hgood⟩ | ⟨e, s, hrun, htext, hgood⟩
  · obtain ⟨log, hlog, hrange⟩ := hgood.logged
    obtain rfl : s.log = log := hlog
    exact ⟨s.pos, s.log, hrange, .inl ⟨o', hrun, htext⟩⟩
  · obtain ⟨log, hlog, hrange⟩ := hgood.logged
    obtain rfl : s.log = log := hlog
    -- the other error would be that the fuel has run out
    have hends := read_text_finishes o hs
    rw [htext] at hends
    cases e with
    | refused => exact ⟨s.pos, s.log, hrange, .inr ⟨hrun, htext⟩⟩
    | unfinished => exact absurd rfl hends

end

/-- Text that ends inside a member's value. -/
theorem reader_in_range_cut :
    (ascii "\x7b\"a\":[tr").length < 2 ^ 32 ∧
    ∃ (startPos : Nat) (log : List Access), (∀ access ∈ log, InRange (ascii "\x7b\"a\":[tr").length access) ∧
      ((∃ o', read_from_string {} (ascii "\x7b\"a\":[tr") ⟨0, []⟩ = .ok o' ⟨startPos, log⟩ ∧
          read_text {} (ascii "\x7b\"a\":[tr") = .ok (o', startPos)) ∨
        read_from_string {} (ascii "\x7b\"a\":[tr") ⟨0, []⟩ = .error .refused ⟨startPos, log⟩ ∧
          read_text {} (ascii "\x7b\"a\":[tr") = .error .refused) :=
  ⟨by decide, reader_in_range (by decide) {}⟩

end Scan

end RtcClient.JsonObject
