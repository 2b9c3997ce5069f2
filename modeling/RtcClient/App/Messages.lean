import RtcClient.App.Command
import RtcClient.Common.Strings
/-!
# Signalling messages

What the text of a request or a response says to the reader that receives it.
-/

namespace RtcClient

open Lib JsonObject

theorem backslash_not_mem_common_to_string (value : Int) : backslash ∉ common_to_string value := by
  have hnat : ∀ n : Nat, backslash ∉ common_to_string n := by
    intro n h
    have := isdigit_common_to_string n _ h
    revert this
    decide
  cases value with
  | ofNat n => exact hnat n
  | negSucc n =>
    rw [common_to_string_negSucc]
    intro h
    rcases List.mem_cons.1 h with h | h
    · revert h
      decide
    · exact hnat _ h

/-- The params object of a `std::map`. -/
theorem params_json_eq {params : List (Bytes × Bytes)} (hs : Assoc.Sorted params) :
    params_json params = ⟨params.map (fun e => (e.1, .T_STRING e.2)), false⟩ := by
  have hsorted : Assoc.Sorted (params.map fun e => (e.1, JsonValue.T_STRING e.2)) := List.pairwise_map.2 hs
  rw [← foldl_set_sorted hsorted, List.foldl_map]
  rfl

theorem app_request_json_eq (cmd : Int) (uuid : Bytes) (params : JsonObject) :
    app_request_json cmd uuid params =
      ⟨[(ascii "opcode", .T_STRING (common_to_string cmd)), (ascii "params", .ofObject params),
        (ascii "request", .T_STRING (ascii "true")), (ascii "uuid", .T_STRING uuid)], false⟩ := rfl

theorem app_response_json_eq (code msg : Bytes) (cmd : Int) (uuid : Bytes) (params : List (Bytes × Bytes)) :
    app_response_json code msg cmd uuid params =
      ⟨[(ascii "code", .T_STRING code), (ascii "msg", .T_STRING msg),
        (ascii "opcode", .T_STRING (common_to_string cmd)), (ascii "params", .ofObject (params_json params)),
        (ascii "request", .T_STRING (ascii "false")), (ascii "uuid", .T_STRING uuid)], false⟩ := rfl

/-- The object has the string members `fields`, an object with the string members `params`, and no others. -/
structure Says (o : JsonObject) (fields params : List (Bytes × Bytes)) : Prop where
  object : o.m_is_array = false
  keys : ∀ key, (Assoc.find o.m_members key).isSome ↔ key = ascii "params" ∨ ∃ f ∈ fields, f.1 = key
  fields : ∀ f ∈ fields, o.get f.1 = .T_STRING f.2
  params : o.get (ascii "params") = .T_OBJ (params.map fun e => (e.1, .T_STRING e.2)) false

section
variable (stream_double : Float → Bytes)

theorem params_round_trip {params : List (Bytes × Bytes)} (hs : Assoc.Sorted params)
    (hkeys : ∀ e ∈ params, quote ∉ e.1 ∧ backslash ∉ e.1) (hvalues : ∀ e ∈ params, backslash ∉ e.2) :
    RoundTrips stream_double (.ofObject (params_json params)) := by
  rw [params_json_eq hs]
  refine round_trips_object stream_double (List.pairwise_map.2 hs) ?_ ?_
  · intro m hm
    obtain ⟨e, he, rfl⟩ := List.mem_map.1 hm
    exact hkeys e he
  · intro m hm
    obtain ⟨e, he, rfl⟩ := List.mem_map.1 hm
    exact round_trips_string stream_double (hvalues e he)

/-- The text of an object whose members are read back gives the object itself. -/
theorem text_round_trip {ms : List (Bytes × JsonValue)} (keys : List Bytes) (hms : ms.map (·.1) = keys)
    (hsorted : keys.Pairwise (· < ·)) (hplain : ∀ key ∈ keys, quote ∉ key ∧ backslash ∉ key)
    (hvalues : ∀ m ∈ ms, RoundTrips stream_double m.2)
    (hlen : ((JsonObject.write_to_string stream_double ⟨ms, false⟩).1.getD []).length < 2 ^ 32) :
    read_from_string {} ((JsonObject.write_to_string stream_double ⟨ms, false⟩).1.getD []) = some ⟨ms, false⟩ := by
  subst hms
  have hkeys : PlainKeys ms := fun m hm => hplain m.1 (List.mem_map_of_mem hm)
  obtain ⟨written, hw, hread⟩ := write_read_object stream_double (List.pairwise_map.1 hsorted) hkeys hvalues
  rw [hw, Option.getD_some] at hlen ⊢
  exact hread hlen

theorem request_round_trip (cmd : Int) {uuid : Bytes} {params : List (Bytes × Bytes)} (hs : Assoc.Sorted params)
    (hkeys : ∀ e ∈ params, quote ∉ e.1 ∧ backslash ∉ e.1) (hvalues : ∀ e ∈ params, backslash ∉ e.2)
    (huuid : backslash ∉ uuid) (hlen : (app_get_request stream_double cmd uuid params).length < 2 ^ 32) :
    read_from_string {} (app_get_request stream_double cmd uuid params) =
      some (app_request_json cmd uuid (params_json params)) := by
  rw [app_get_request, app_request_json_eq] at hlen ⊢
  refine text_round_trip stream_double [ascii "opcode", ascii "params", ascii "request", ascii "uuid"] rfl
    (by decide +kernel) (by decide +kernel) ?_ hlen
  simp only [List.forall_mem_cons]
  refine ⟨?_, params_round_trip stream_double hs hkeys hvalues, ?_, round_trips_string stream_double huuid, by simp⟩
  · exact round_trips_string stream_double (backslash_not_mem_common_to_string cmd)
  · exact round_trips_string stream_double (by decide +kernel)

theorem response_round_trip {code msg : Bytes} (cmd : Int) {uuid : Bytes} {params : List (Bytes × Bytes)}
    (hs : Assoc.Sorted params) (hkeys : ∀ e ∈ params, quote ∉ e.1 ∧ backslash ∉ e.1)
    (hvalues : ∀ e ∈ params, backslash ∉ e.2) (hcode : backslash ∉ code) (hmsg : backslash ∉ msg)
    (huuid : backslash ∉ uuid) (hlen : (app_get_response stream_double code msg cmd uuid params).length < 2 ^ 32) :
    read_from_string {} (app_get_response stream_double code msg cmd uuid params) =
      some (app_response_json code msg cmd uuid params) := by
  rw [app_get_response, app_response_json_eq] at hlen ⊢
  refine text_round_trip stream_double
    [ascii "code", ascii "msg", ascii "opcode", ascii "params", ascii "request", ascii "uuid"] rfl
    (by decide +kernel) (by decide +kernel) ?_ hlen
  simp only [List.forall_mem_cons]
  refine ⟨round_trips_string stream_double hcode, round_trips_string stream_double hmsg, ?_,
    params_round_trip stream_double hs hkeys hvalues, ?_, round_trips_string stream_double huuid, by simp⟩
  · exact round_trips_string stream_double (backslash_not_mem_common_to_string cmd)
  · exact round_trips_string stream_double (by decide +kernel)

/-- Signalling messages round-trip. -/
theorem messages_round_trip (cmd : Int) (uuid code msg : Bytes) (params : List (Bytes × Bytes))
    (hs : Assoc.Sorted params) (hkeys : ∀ e ∈ params, quote ∉ e.1 ∧ backslash ∉ e.1)
    (hvalues : ∀ e ∈ params, backslash ∉ e.2) (huuid : backslash ∉ uuid) (hcode : backslash ∉ code)
    (hmsg : backslash ∉ msg) :
    ((app_get_request stream_double cmd uuid params).length < 2 ^ 32 →
      ∃ o, read_from_string {} (app_get_request stream_double cmd uuid params) = some o ∧
        Says o [(ascii "opcode", common_to_string cmd), (ascii "request", ascii "true"), (ascii "uuid", uuid)]
          params) ∧
    ((app_get_response stream_double code msg cmd uuid params).length < 2 ^ 32 →
      ∃ o, read_from_string {} (app_get_response stream_double code msg cmd uuid params) = some o ∧
        Says o [(ascii "code", code), (ascii "msg", msg), (ascii "opcode", common_to_string cmd),
          (ascii "request", ascii "false"), (ascii "uuid", uuid)] params) := by
  constructor
  · intro hlen
    refine ⟨_, request_round_trip stream_double cmd hs hkeys hvalues huuid hlen, ?_⟩
    rw [app_request_json_eq, params_json_eq hs]
    refine ⟨rfl, fun key => ?_, ?_, rfl⟩
    · rw [Assoc.isSome_find]
      simp [eq_comm (a := key), or_left_comm]
    · simp only [List.forall_mem_cons]
      exact ⟨rfl, rfl, rfl, by simp⟩
  · intro hlen
    refine ⟨_, response_round_trip stream_double cmd hs hkeys hvalues hcode hmsg huuid hlen, ?_⟩
    rw [app_response_json_eq, params_json_eq hs]
    refine ⟨rfl, fun key => ?_, ?_, rfl⟩
    · rw [Assoc.isSome_find]
      simp [eq_comm (a := key), or_left_comm]
    · simp only [List.forall_mem_cons]
      exact ⟨rfl, rfl, rfl, rfl, rfl, by simp⟩

end

/-- A user name with quotes, a slash and a line feed. -/
def quoted_name : List (Bytes × Bytes) := [(ascii "user_id", ascii "1"), (ascii "user_name", ascii "\"a/b\"" ++ [10])]

theorem messages_round_trip_quoted :
    (∃ o, read_from_string {} (app_get_request common_to_string_double TYPE_CONFERENCE_JOIN (ascii "7") quoted_name) =
        some o ∧
      Says o [(ascii "opcode", common_to_string TYPE_CONFERENCE_JOIN), (ascii "request", ascii "true"),
        (ascii "uuid", ascii "7")] quoted_name) ∧
    (∃ o, read_from_string {} (app_get_response common_to_string_double (ascii "200") (ascii "OK")
        TYPE_CONFERENCE_JOIN (ascii "7") quoted_name) = some o ∧
      Says o [(ascii "code", ascii "200"), (ascii "msg", ascii "OK"),
        (ascii "opcode", common_to_string TYPE_CONFERENCE_JOIN), (ascii "request", ascii "false"),
        (ascii "uuid", ascii "7")] quoted_name) := by
  obtain ⟨hrequest, hresponse⟩ := messages_round_trip common_to_string_double TYPE_CONFERENCE_JOIN (ascii "7")
    (ascii "200") (ascii "OK") quoted_name (by unfold Assoc.Sorted; decide +kernel) (by decide +kernel)
    (by decide +kernel) (by decide +kernel) (by decide +kernel) (by decide +kernel)
  exact ⟨hrequest (by decide +kernel), hresponse (by decide +kernel)⟩

end RtcClient
