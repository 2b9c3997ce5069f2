import RtcClient.Common.JsonWriter
/-!
# Signalling commands

The command codes, and the objects that `app_get_request` and `app_get_response`
serialise with their texts. A text that cannot be written is empty.
-/

namespace RtcClient

open Lib

def TYPE_CONFERENCE_CREATE : Int := 1000
def TYPE_CONFERENCE_JOIN : Int := 1001
def TYPE_CONFERENCE_NEW_JOINED : Int := 1002
def TYPE_CONFERENCE_PULL_STREAM : Int := 1100
def TYPE_CONFERENCE_STOP_PULLING : Int := 1101
def TYPE_CONFERENCE_EXIT : Int := 1200
def TYPE_CONFERENCE_USER_GONE : Int := 1201
def TYPE_CONFERENCE_STOP : Int := 1202
def TYPE_CONFERENCE_CLOSING : Int := 1203
def TYPE_CONFERENCE_ONLINE_USERS : Int := 2000
def TYPE_CONFERENCE_HEARTBEAT : Int := 3000

/-- The params object made of a `std::map<std::string, std::string>`. -/
def params_json (params : List (Bytes × Bytes)) : JsonObject :=
  params.foldl (fun o e => o.set e.1 (.T_STRING e.2)) {}

/-- The object `app_get_request` writes. -/
def app_request_json (cmd : Int) (uuid : Bytes) (params : JsonObject) : JsonObject :=
  let json : JsonObject := {}
  let json := json.set (ascii "opcode") (.T_STRING (common_to_string cmd))
  let json := json.set (ascii "request") (.T_STRING (ascii "true"))
  let json := json.set (ascii "uuid") (.T_STRING uuid)
  json.set (ascii "params") (.ofObject params)

/-- The object `app_get_response` writes. -/
def app_response_json (code msg : Bytes) (cmd : Int) (uuid : Bytes) (params : List (Bytes × Bytes)) : JsonObject :=
  let json : JsonObject := {}
  let json := json.set (ascii "code") (.T_STRING code)
  let json := json.set (ascii "msg") (.T_STRING msg)
  let json := json.set (ascii "request") (.T_STRING (ascii "false"))
  let json := json.set (ascii "opcode") (.T_STRING (common_to_string cmd))
  let json := json.set (ascii "uuid") (.T_STRING uuid)
  json.set (ascii "params") (.ofObject (params_json params))

section
variable (stream_double : Float → Bytes)

/-- What `write_to_string` makes of a request. -/
def request_text (request : JsonObject) : Bytes := (request.write_to_string stream_double).1.getD []

def app_get_request (cmd : Int) (uuid : Bytes) (params : List (Bytes × Bytes)) : Bytes :=
  ((app_request_json cmd uuid (params_json params)).write_to_string stream_double).1.getD []

/-- The overload whose params are an object. -/
def app_get_request_object (cmd : Int) (uuid : Bytes) (params : JsonObject) : Bytes :=
  request_text stream_double (app_request_json cmd uuid params)

def app_get_response (code msg : Bytes) (cmd : Int) (uuid : Bytes) (params : List (Bytes × Bytes)) : Bytes :=
  ((app_response_json code msg cmd uuid params).write_to_string stream_double).1.getD []

end

end RtcClient
