import RtcClient.Common.JsonTokens
/-!
# Brackets of either kind

`read_object` and `read_array` differ in their brackets and in the names of the members.
They are put here as one reader with one loop, so that what is proved about it holds of
both.
-/

namespace RtcClient.JsonObject

open Lib

def opening (m_is_array : Bool) : UInt8 := if m_is_array then openBracket else openBrace

def closing (m_is_array : Bool) : UInt8 := if m_is_array then closeBracket else closeBrace

theorem closing_not_blank (m_is_array : Bool) : isBlank (closing m_is_array) = false := by cases m_is_array <;> decide

theorem opening_not_blank (m_is_array : Bool) : isBlank (opening m_is_array) = false := by cases m_is_array <;> decide

/-- A value with a name is set, one without is pushed. -/
def add (o : JsonObject) (key : Option Bytes) (value : JsonValue) : JsonObject :=
  match key with
  | .none => o.push value
  | .some key => o.set key value

def read_group (m_is_array : Bool) (fuel : Nat) (o : JsonObject) (str : Bytes) (startPos : Nat) :
    Except Stop (JsonObject × Nat) :=
  if m_is_array then read_array fuel o str startPos else read_object fuel o str startPos

def item_loop (m_is_array : Bool) (fuel : Nat) (o : JsonObject) (str : Bytes) (startPos : Nat) :
    Except Stop (JsonObject × Nat) :=
  if m_is_array then array_loop fuel o str startPos else object_loop fuel o str startPos

/-- The part of a round before the value. -/
def read_name (m_is_array : Bool) (fuel : Nat) (str : Bytes) (startPos : Nat) :
    Except Stop (Option Bytes × Nat) :=
  if m_is_array then .ok (none, startPos)
  else do
    let (key, startPos) ← read_json_key_value fuel str .T_UNDEFINED startPos
    match key with
    | .T_STRING key =>
      let (c, startPos) ← read_delimiter str startPos
      if c ≠ colon then throw .refused
      return (some key, startPos)
    | _ => throw .refused

/-- The part of a round behind the name. -/
def read_item (m_is_array : Bool) (fuel : Nat) (o : JsonObject) (str : Bytes) (name : Option Bytes) (startPos : Nat) :
    Except Stop (JsonObject × Nat) := do
  let (value, startPos) ← read_json_key_value fuel str .T_UNDEFINED startPos
  let (c, startPos) ← read_delimiter str startPos
  if c = closing m_is_array then return (o.add name value, startPos)
  else if c = comma then item_loop m_is_array fuel (o.add name value) str startPos
  else throw .refused

section
variable {str : Bytes} {pos : Nat}

theorem item_loop_zero (m_is_array : Bool) (o : JsonObject) :
    item_loop m_is_array 0 o str pos = .error .unfinished := by
  cases m_is_array with
  | true => rw [item_loop, if_pos rfl, array_loop]
  | false => rw [item_loop, if_neg Bool.false_ne_true, object_loop]

theorem read_group_zero (m_is_array : Bool) (o : JsonObject) :
    read_group m_is_array 0 o str pos = .error .unfinished := by
  cases m_is_array with
  | true => rw [read_group, if_pos rfl, read_array]
  | false => rw [read_group, if_neg Bool.false_ne_true, read_object]

/-- A round of either loop. -/
theorem item_loop_succ (m_is_array : Bool) (fuel : Nat) (o : JsonObject) :
    item_loop m_is_array (fuel + 1) o str pos =
      if str.length ≤ pos then .error .refused
      else if charAt str pos = closing m_is_array then .ok (o, uint32 (pos + 1))
      else read_name m_is_array fuel str pos >>= fun r => read_item m_is_array fuel o str r.1 r.2 := by
  cases m_is_array with
  | true =>
    rw [item_loop, if_pos rfl, array_loop]
    rfl
  | false =>
    rw [item_loop, if_neg Bool.false_ne_true, object_loop]
    refine ite_congr rfl (fun _ => rfl) fun _ => ite_congr rfl (fun _ => rfl) fun _ => ?_
    rw [read_name, if_neg Bool.false_ne_true]
    cases read_json_key_value fuel str .T_UNDEFINED pos with
    | error e => rfl
    | ok r =>
      obtain ⟨key, pos⟩ := r
      cases key with
      | T_STRING key =>
        rw [ok_bind, ok_bind]
        dsimp only
        cases read_delimiter str pos with
        | error e => rfl
        | ok r =>
          rw [ok_bind, ok_bind]
          split <;> rfl
      | _ => rfl

theorem read_group_succ (m_is_array : Bool) (fuel : Nat) (o : JsonObject) :
    read_group m_is_array (fuel + 1) o str pos =
      if size_left str pos < 2 then .error .refused
      else if charAt str pos ≠ opening m_is_array then .error .refused
      else item_loop m_is_array fuel (if m_is_array then { o with m_is_array := true } else o) str
        (uint32 (pos + 1)) := by
  cases m_is_array with
  | true => rw [read_group, if_pos rfl, read_array]; rfl
  | false => rw [read_group, if_neg Bool.false_ne_true, read_object]; rfl

theorem read_by_group (m_is_array : Bool) (fuel : Nat) (result : JsonValue) :
    read_by fuel str result pos (opening m_is_array) =
      (read_group m_is_array fuel {} str pos >>= fun r => .ok (.ofObject r.1, r.2)) := by
  cases m_is_array <;> rfl

theorem read_text_opening (m_is_array : Bool) {lead tail : Bytes} (o : JsonObject) (hlead : Blank lead)
    (hs : (lead ++ opening m_is_array :: tail).length < 2 ^ 32) :
    ∃ pos, At (lead ++ opening m_is_array :: tail) pos (opening m_is_array :: tail) ∧
      o.read_text (lead ++ opening m_is_array :: tail) =
        read_group m_is_array (fuelFor (lead ++ opening m_is_array :: tail)) o
          (lead ++ opening m_is_array :: tail) pos := by
  obtain ⟨pos, hwhite, hpos⟩ := read_whitespace_skip (At.start _) hs
  rw [skip_append hlead, skip_dense (by intro c hc; cases hc; exact opening_not_blank m_is_array)] at hpos
  refine ⟨pos, hpos, ?_⟩
  unfold read_text
  rw [hwhite, if_neg (by simp), ok_bind, hpos.char]
  dsimp only
  cases m_is_array with
  | true =>
    rw [if_neg (by decide), if_pos (by rfl)]
    rfl
  | false =>
    rw [if_pos (by rfl)]
    rfl

end

end RtcClient.JsonObject
