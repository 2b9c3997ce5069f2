import RtcClient.App.Leftovers
import RtcClient.App.Messages
import RtcClient.Common.JsonArrays
/-!
# Requests about streams

What the text of a request to pull or to stop pulling streams says. The object the
elements are put into becomes an array when it is indexed for the first time. If every
user's set is empty that never happens, and the text has an empty object there.
-/

namespace RtcClient

open Lib JsonObject JsonTree

section
variable (stream_double : Float → Bytes)

/-! ## Values written as trees -/

/-- A member is written as a tree's member; its key is one that escaping leaves alone. -/
def Prints (m : Bytes × JsonValue) (j : Bytes × JsonTree) : Prop :=
  m.1 = j.1 ∧ escape_string m.1 = m.1 ∧ Writes stream_double m.2 j.2.print

theorem prints_member {key : Bytes} {v : JsonValue} {j : JsonTree} (hkey : escape_string key = key)
    (h : Writes stream_double v j.print) : Prints stream_double (key, v) (key, j) := ⟨rfl, hkey, h⟩

theorem prints_members {ms : List (Bytes × JsonValue)} {js : List (Bytes × JsonTree)}
    (h : List.Forall₂ (Prints stream_double) ms js) :
    List.Forall₂ (WritesMember stream_double) ms (print_members js) := by
  rw [print_members_eq, List.forall₂_map_right_iff]
  refine h.imp fun m j hm => ?_
  obtain ⟨hkey, hescape, hwrites⟩ := hm
  refine ⟨j.2.print, ?_, hwrites⟩
  rw [print_string, ← hkey, hescape]

theorem writes_obj {ms : List (Bytes × JsonValue)} {js : List (Bytes × JsonTree)}
    (h : List.Forall₂ (Prints stream_double) ms js) : Writes stream_double (.T_OBJ ms false) (print (.obj js)) :=
  writes_object stream_double (prints_members stream_double h)

/-- Values stored at 0, 1, … are written as the elements of an array. -/
theorem writes_arr {A : Type} {items : List A} {value : A → JsonValue} {tree : A → JsonTree} (hne : items ≠ [])
    (h : ∀ a ∈ items, Writes stream_double (value a) (tree a).print) :
    Writes stream_double (.ofObject (store (items.map value))) (print (.arr (emitted (items.map tree)))) := by
  have hstored : items.map value ≠ [] := by simpa using hne
  have harray := store_is_array hstored
  have htexts := store_texts h
  have hprint : emitted (items.map fun a => (tree a).print) = (emitted (items.map tree)).map print := by
    rw [← emitted_map, List.map_map]
    rfl
  rw [hprint, ← print_elements_eq] at htexts
  generalize store (items.map value) = o at harray htexts
  obtain ⟨ms, m_is_array⟩ := o
  obtain rfl : m_is_array = true := harray
  exact writes_array stream_double htexts

end

/-! ## The loops -/

namespace LiveMeetingRoom

/-- A counter that runs along with the elements is their index. -/
theorem foldl_setIndex {A : Type} (value : A → JsonValue) (items : List A) :
    (items.foldl (fun (acc : JsonObject × Int) a => (acc.1.setIndex acc.2 (value a), acc.2 + 1)) ({}, 0)).1 =
      store (items.map value) := by
  have hfrom : ∀ (items : List A) (o : JsonObject) (n : Nat),
      (items.foldl (fun (acc : JsonObject × Int) a => (acc.1.setIndex acc.2 (value a), acc.2 + 1)) (o, (n : Int))).1 =
        ((items.map value).zipIdx n).foldl (fun o e => o.setIndex e.2 e.1) o := by
    intro items
    induction items with
    | nil => exact fun _ _ => rfl
    | cons a items ih =>
      intro o n
      rw [List.map_cons, List.zipIdx_cons, List.foldl_cons, List.foldl_cons]
      exact ih _ (n + 1)
  exact hfrom items {} 0

def ssrc_value (ssrc : Bytes) : JsonValue := .ofObject (JsonObject.set {} (ascii "ssrc") (.T_STRING ssrc))

theorem ssrcs_json_eq (ssrcSet : List Bytes) : ssrcs_json ssrcSet = store (ssrcSet.map ssrc_value) :=
  foldl_setIndex ssrc_value ssrcSet

def stream_value (e : Bytes × List Bytes) : JsonValue :=
  .T_OBJ [(ascii "ssrcs", .ofObject (ssrcs_json e.2)), (ascii "user_uuid", .T_STRING e.1)] false

/-- Users without SSRCs are skipped. -/
theorem streams_json_eq (streams : Streams) :
    streams_json streams = store ((streams.filter (fun e => e.2 ≠ [])).map stream_value) := by
  rw [← foldl_setIndex, List.foldl_filter, streams_json]
  congr 2
  funext acc e
  cases he : e.2 with
  | nil => simp
  | cons ssrc ssrcs =>
    rw [stream_value, he]
    rfl

/-! ## What the request says -/

/-- The JSON of a request about streams. -/
def streams_request (cmd : Int) (uuid conference_id user_uuid : Bytes) (streams : JsonTree) : JsonTree :=
  .obj [(ascii "opcode", .str (common_to_string cmd)),
    (ascii "params", .obj [(ascii "conference_id", .str conference_id), (ascii "streams", streams),
      (ascii "user_uuid", .str user_uuid)]),
    (ascii "request", .str (ascii "true")), (ascii "uuid", .str uuid)]

/-- The other users whose sets have SSRCs. -/
def asked (room : LiveMeetingRoom) (streams : Streams) : Streams :=
  streams.filter (fun e => e.1 ≠ room.m_my_user_uuid ∧ e.2 ≠ [])

def ssrc_tree (ssrc : Bytes) : JsonTree := .obj [(ascii "ssrc", .str ssrc)]

/-- The element of one user: one entry for each SSRC, in some order. -/
def SaysUser (e : Bytes × List Bytes) (element : JsonTree) : Prop :=
  ∃ ssrcs : List JsonTree, element = .obj [(ascii "ssrcs", .arr ssrcs), (ascii "user_uuid", .str e.1)] ∧
    ssrcs.Perm (e.2.map ssrc_tree)

/-- An array with one element for each user, in some order. -/
def SaysStreams (users : Streams) (streams : JsonTree) : Prop :=
  ∃ elements inOrder : List JsonTree, streams = .arr elements ∧ elements.Perm inOrder ∧
    List.Forall₂ SaysUser users inOrder

/-- A request was sent, and what its text says of the streams is what the users are asked for. -/
def SendsAsked (stream_double : Float → Bytes) (room : LiveMeetingRoom) (env : SignalEnv) (cmd : Int)
    (streams : Streams) (r : SignalResult) : Prop :=
  ∃ (request : JsonObject) (text : Bytes) (said : JsonTree), r.request = some request ∧
    (request.write_to_string stream_double).1 = some text ∧
    text = print (streams_request cmd env.uuid room.m_my_room_id room.m_my_user_uuid said) ∧
    SaysStreams (room.asked streams) said

/-! ## What is written -/

def stream_tree (e : Bytes × List Bytes) : JsonTree :=
  .obj [(ascii "ssrcs", .arr (emitted (e.2.map ssrc_tree))), (ascii "user_uuid", .str e.1)]

/-- What stands in the place of the streams. -/
def streams_tree (users : Streams) : JsonTree :=
  if users = [] then .obj [] else .arr (emitted (users.map stream_tree))

theorem saysUser_stream_tree (e : Bytes × List Bytes) : SaysUser e (stream_tree e) := ⟨_, rfl, emitted_perm _⟩

/-- It is what was asked for, unless nothing was. -/
theorem saysStreams_streams_tree {users : Streams} (h : users ≠ []) : SaysStreams users (streams_tree users) := by
  refine ⟨_, users.map stream_tree, if_neg h, emitted_perm _, ?_⟩
  rw [List.forall₂_map_right_iff, List.forall₂_same]
  exact fun e _ => saysUser_stream_tree e

section
variable (stream_double : Float → Bytes)

theorem writes_ssrc (ssrc : Bytes) : Writes stream_double (ssrc_value ssrc) (ssrc_tree ssrc).print :=
  writes_obj stream_double (.cons (prints_member stream_double (by decide +kernel) (writes_string stream_double ssrc)) .nil)

theorem writes_stream {e : Bytes × List Bytes} (h : e.2 ≠ []) :
    Writes stream_double (stream_value e) (stream_tree e).print := by
  have hssrcs := writes_arr stream_double h fun ssrc _ => writes_ssrc stream_double ssrc
  rw [← ssrcs_json_eq] at hssrcs
  refine writes_obj stream_double (.cons ?_ (.cons ?_ .nil))
  · exact prints_member stream_double (by decide +kernel) hssrcs
  · exact prints_member stream_double (by decide +kernel) (writes_string stream_double e.1)

theorem writes_streams (streams : Streams) :
    Writes stream_double (.ofObject (streams_json streams))
      (streams_tree (streams.filter (fun e => e.2 ≠ []))).print := by
  rw [streams_json_eq]
  have hsets : ∀ e ∈ streams.filter (fun e => e.2 ≠ []), e.2 ≠ [] := fun e he => by simpa using (List.mem_filter.1 he).2
  generalize streams.filter (fun e => e.2 ≠ []) = users at hsets
  unfold streams_tree
  by_cases hu : users = []
  · -- the object has never been indexed
    subst hu
    exact writes_obj stream_double .nil
  · rw [if_neg hu]
    exact writes_arr stream_double hu fun e he => writes_stream stream_double (hsets e he)

/-- The text of a request whose streams are written as `tree`. -/
theorem write_streams_request (room : LiveMeetingRoom) {streams : JsonObject} {tree : JsonTree} (cmd : Int) (uuid : Bytes)
    (h : Writes stream_double (.ofObject streams) tree.print) :
    ((app_request_json cmd uuid (room.my_params.set (ascii "streams") (.ofObject streams))).write_to_string
        stream_double).1 =
      some (print (streams_request cmd uuid room.m_my_room_id room.m_my_user_uuid tree)) := by
  have hmembers : room.my_params.set (ascii "streams") (.ofObject streams) =
      ⟨[(ascii "conference_id", .T_STRING room.m_my_room_id), (ascii "streams", .ofObject streams),
        (ascii "user_uuid", .T_STRING room.m_my_user_uuid)], false⟩ := rfl
  have hparams : Writes stream_double (.ofObject (room.my_params.set (ascii "streams") (.ofObject streams)))
      (print (.obj [(ascii "conference_id", .str room.m_my_room_id), (ascii "streams", tree),
        (ascii "user_uuid", .str room.m_my_user_uuid)])) := by
    rw [hmembers]
    refine writes_obj stream_double (.cons ?_ (.cons ?_ (.cons ?_ .nil)))
    · exact prints_member stream_double (by decide +kernel) (writes_string stream_double _)
    · exact prints_member stream_double (by decide +kernel) h
    · exact prints_member stream_double (by decide +kernel) (writes_string stream_double _)
  rw [app_request_json_eq]
  refine write_to_string_object stream_double (prints_members stream_double ?_)
  refine .cons ?_ (.cons ?_ (.cons ?_ (.cons ?_ .nil)))
  · exact prints_member stream_double (by decide +kernel) (writes_string stream_double _)
  · exact prints_member stream_double (by decide +kernel) hparams
  · exact prints_member stream_double (by decide +kernel) (writes_string stream_double _)
  · exact prints_member stream_double (by decide +kernel) (writes_string stream_double _)

/-- Two requests that differ in the streams only have the same text if the streams have. -/
theorem streams_request_inj {cmd : Int} {uuid conference_id user_uuid : Bytes} {tree tree' : JsonTree}
    (h : print (streams_request cmd uuid conference_id user_uuid tree) =
      print (streams_request cmd uuid conference_id user_uuid tree')) : tree.print = tree'.print := by
  simpa [streams_request, print, print_members, commas] using h

/-- What is sent if the request is not refused. -/
theorem signal_streams_sent {room : LiveMeetingRoom} {env : SignalEnv} {cmd : Int} {streams : Streams}
    (h : (room.signal_streams env cmd streams).1.code = 0) :
    (room.signal_streams env cmd streams).1.request =
      some (app_request_json cmd env.uuid (room.my_params.set (ascii "streams")
        (.ofObject (streams_json (Assoc.erase streams room.m_my_user_uuid))))) := by
  revert h
  unfold signal_streams
  split
  · intro h
    cases h
  split
  · intro h
    cases h
  dsimp only
  split
  · intro h
    cases h
  split
  · intro h
    cases h
  rename_i room' hthrottle
  obtain ⟨-, rfl⟩ := throttle_some hthrottle
  unfold send_request
  split
  · exact fun _ => rfl
  · intro h
    cases h

theorem asked_erase (room : LiveMeetingRoom) (streams : Streams) :
    (Assoc.erase streams room.m_my_user_uuid).filter (fun e => e.2 ≠ []) = room.asked streams := by
  rw [Assoc.erase, List.filter_filter, asked]
  congr 1
  funext e
  rw [Bool.and_comm, ← Bool.decide_and]

/-- The request that was sent says what was asked for exactly if something was. -/
theorem signal_streams_says_iff {room : LiveMeetingRoom} {env : SignalEnv} {cmd : Int} {streams : Streams}
    (h : (room.signal_streams env cmd streams).1.code = 0) :
    SendsAsked stream_double room env cmd streams (room.signal_streams env cmd streams).1 ↔
      room.asked streams ≠ [] := by
  have hrequest := signal_streams_sent h
  have htree := writes_streams stream_double (Assoc.erase streams room.m_my_user_uuid)
  rw [asked_erase] at htree
  have htext := write_streams_request stream_double room cmd env.uuid htree
  constructor
  · rintro ⟨request, text, said, hr, hw, rfl, elements, inOrder, rfl, -, -⟩ hnone
    rw [hrequest] at hr
    cases hr
    rw [htext, hnone] at hw
    -- an object's brace where the array's bracket should be
    have hbrackets := streams_request_inj (Option.some.inj hw)
    cases (List.cons.inj hbrackets).1
  · intro hne
    exact ⟨_, _, _, hrequest, htext, rfl, saysStreams_streams_tree hne⟩

theorem asked_ne_nil (room : LiveMeetingRoom) (streams : Streams) :
    room.asked streams ≠ [] ↔ ∃ e ∈ streams, e.1 ≠ room.m_my_user_uuid ∧ e.2 ≠ [] := by
  unfold asked
  rw [ne_eq, List.filter_eq_nil_iff]
  push Not
  simp only [decide_eq_true_eq, ne_eq]

/-- A request to pull streams, or to stop pulling them, says exactly what was asked for if the set of
another user has an SSRC, and otherwise it does not. -/
theorem streams_requested_iff (room : LiveMeetingRoom) (streams : Streams) (env : SignalEnv) :
    ((room.signal_start_pull_stream streams env).1.code = 0 →
      (SendsAsked stream_double room env TYPE_CONFERENCE_PULL_STREAM streams
          (room.signal_start_pull_stream streams env).1 ↔
        ∃ e ∈ streams, e.1 ≠ room.m_my_user_uuid ∧ e.2 ≠ [])) ∧
    ((room.signal_stop_pull_stream streams env).1.code = 0 →
      (SendsAsked stream_double room env TYPE_CONFERENCE_STOP_PULLING streams
          (room.signal_stop_pull_stream streams env).1 ↔
        ∃ e ∈ streams, e.1 ≠ room.m_my_user_uuid ∧ e.2 ≠ [])) := by
  constructor
  · intro h
    exact (signal_streams_says_iff stream_double h).trans (asked_ne_nil room streams)
  · intro h
    exact (signal_streams_says_iff stream_double h).trans (asked_ne_nil room streams)

end

/-- A room in a conference. -/
def inside : LiveMeetingRoom :=
  final step (new 0 0 0 0) [.init (ascii "10.0.0.1") 8080 true true true, create 0, created 100]

/-- The own streams and those of two users, of whom one has none. -/
theorem streams_requested_two :
    (inside.signal_start_pull_stream
      [(ascii "a1", [ascii "1"]), (ascii "b1", [ascii "2", ascii "3"]), (ascii "c1", [])]
      ⟨20, ascii "9", true⟩).1.code = 0 ∧
    SendsAsked common_to_string_double inside ⟨20, ascii "9", true⟩ TYPE_CONFERENCE_PULL_STREAM
      [(ascii "a1", [ascii "1"]), (ascii "b1", [ascii "2", ascii "3"]), (ascii "c1", [])]
      (inside.signal_start_pull_stream
        [(ascii "a1", [ascii "1"]), (ascii "b1", [ascii "2", ascii "3"]), (ascii "c1", [])]
        ⟨20, ascii "9", true⟩).1 := by
  have hcode : (inside.signal_start_pull_stream
      [(ascii "a1", [ascii "1"]), (ascii "b1", [ascii "2", ascii "3"]), (ascii "c1", [])]
      ⟨20, ascii "9", true⟩).1.code = 0 := by decide +kernel
  refine ⟨hcode, ((streams_requested_iff common_to_string_double inside _ _).1 hcode).2 ?_⟩
  exact ⟨(ascii "b1", [ascii "2", ascii "3"]), by simp, by decide +kernel, by simp⟩

/-- Nobody has streams to pull. The server reads an empty object where the array should be. -/
theorem not_streams_requested :
    ((((inside.signal_start_pull_stream [(ascii "b1", [])] ⟨20, ascii "9", true⟩).1.request.bind
        fun request => (request.write_to_string common_to_string_double).1).bind (read_from_string {})).map
      fun o => ((o.get (ascii "params")).as_object.get (ascii "streams")).as_object.m_is_array) = some false ∧
    ¬ ∀ (room : LiveMeetingRoom) (streams : Streams) (env : SignalEnv),
      (room.signal_start_pull_stream streams env).1.code = 0 →
      SendsAsked common_to_string_double room env TYPE_CONFERENCE_PULL_STREAM streams
        (room.signal_start_pull_stream streams env).1 := by
  refine ⟨by decide +kernel, fun h => ?_⟩
  have hcode : (inside.signal_streams ⟨20, ascii "9", true⟩ TYPE_CONFERENCE_PULL_STREAM [(ascii "b1", [])]).1.code = 0 := by
    decide +kernel
  have hasked := (signal_streams_says_iff common_to_string_double hcode).1 (h inside _ _ hcode)
  exact hasked (by decide +kernel)

end LiveMeetingRoom

end RtcClient
