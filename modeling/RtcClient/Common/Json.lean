import RtcClient.Common.Utils
import RtcClient.Lib.Assoc
import RtcClient.Lib.Runs
/-!
# JSON values

A `JsonObject` is a map of members, also when it is an array: the keys are then the
decimal indices. Reading a member that is not there gives an undefined value.
-/

namespace RtcClient

open Lib

inductive JsonValue where
  | T_NULL
  | T_BOOL (bool_v : Bool)
  | T_INT8 (int8_v : Int8)
  | T_INT16 (int16_v : Int16)
  | T_INT32 (int32_v : Int32)
  | T_INT64 (int64_v : Int64)
  | T_UINT8 (uint8_v : UInt8)
  | T_UINT16 (uint16_v : UInt16)
  | T_UINT32 (uint32_v : UInt32)
  | T_UINT64 (uint64_v : UInt64)
  | T_DOUBLE (double_v : Float)
  | T_STRING (str : Bytes)
  /-- The fields of the `JsonObject` pointed to. -/
  | T_OBJ (m_members : List (Bytes × JsonValue)) (m_is_array : Bool)
  | T_UNDEFINED

structure JsonObject where
  m_members : List (Bytes × JsonValue) := []
  m_is_array : Bool := false

namespace JsonValue

/-- `JsonValue(const JsonObject &)`. -/
def ofObject (val : JsonObject) : JsonValue := .T_OBJ val.m_members val.m_is_array

def as_string : JsonValue → Bytes
  | .T_BOOL v => common_to_string_bool v
  | .T_INT8 v => common_to_string v.toInt
  | .T_INT16 v => common_to_string v.toInt
  | .T_INT32 v => common_to_string v.toInt
  | .T_INT64 v => common_to_string v.toInt
  | .T_UINT8 v => common_to_string v.toNat
  | .T_UINT16 v => common_to_string v.toNat
  | .T_UINT32 v => common_to_string v.toNat
  | .T_UINT64 v => common_to_string v.toNat
  | .T_DOUBLE v => common_to_string_double v
  | .T_STRING str => str
  | .T_OBJ _ _ => ascii "JsonObject"
  | .T_NULL => []
  | .T_UNDEFINED => []

def as_int64 : JsonValue → Int64
  | .T_BOOL v => if v then 1 else 0
  | .T_INT8 v => v.toInt64
  | .T_INT16 v => v.toInt64
  | .T_INT32 v => v.toInt64
  | .T_INT64 v => v
  | .T_UINT8 v => v.toUInt64.toInt64
  | .T_UINT16 v => v.toUInt64.toInt64
  | .T_UINT32 v => v.toUInt64.toInt64
  | .T_UINT64 v => v.toInt64
  | .T_DOUBLE v => v.toInt64
  | .T_OBJ _ _ => 1
  | .T_STRING _ => 1
  | .T_NULL => 0
  | .T_UNDEFINED => 0

def as_object : JsonValue → JsonObject
  | .T_OBJ m_members m_is_array => ⟨m_members, m_is_array⟩
  | _ => {}

end JsonValue

namespace JsonObject

/-- `operator[]` read: a missing member is undefined. -/
def get (o : JsonObject) (key : Bytes) : JsonValue := (Assoc.find o.m_members key).getD .T_UNDEFINED

/-- `operator[]` with an index, read. -/
def getIndex (o : JsonObject) (index : Int) : JsonValue := o.get (common_to_string index)

/-- `operator[]` assigned to. -/
def set (o : JsonObject) (key : Bytes) (value : JsonValue) : JsonObject :=
  { o with m_members := Assoc.insert key value o.m_members }

/-- `operator[]` with an index, assigned to. It makes the object an array. -/
def setIndex (o : JsonObject) (index : Int) (value : JsonValue) : JsonObject :=
  { m_members := Assoc.insert (common_to_string index) value o.m_members, m_is_array := true }

def array_size (o : JsonObject) : Int := if o.m_is_array then int32 o.m_members.length else -1

/-! ## Members set one after the other -/

theorem foldl_set_is_array (ms : List (Bytes × JsonValue)) (o : JsonObject) :
    (ms.foldl (fun o m => o.set m.1 m.2) o).m_is_array = o.m_is_array :=
  foldl_keeps m_is_array (f := fun o m => o.set m.1 m.2) (fun _ _ => rfl) ms o

theorem foldl_set_members (ms : List (Bytes × JsonValue)) (o : JsonObject) :
    (ms.foldl (fun o m => o.set m.1 m.2) o).m_members =
      ms.foldl (fun l m => Assoc.insert m.1 m.2 l) o.m_members :=
  (List.foldl_hom m_members (fun _ _ => rfl)).symm

end JsonObject

end RtcClient
