import RtcClient.Common.Strings
import RtcClient.Websocket.Base64
import RtcClient.Websocket.Handshake
/-!
# The address of the server

`urlparse` finds the parts of a URL in one pass. The address that `initialize` makes
of an IP address and a port is taken apart into the same again (`address_parsed`).
The request of the handshake is one head of HTTP, whatever the address is, as long as
it has no control characters (`ws_request_whole`).
-/

namespace RtcClient

open Lib

/-- `struct url`. A part that is not there is 0; `stop` is its `end`. -/
structure UrlParts where
  user : Nat := 0
  pass : Nat := 0
  host : Nat := 0
  port : Nat := 0
  uri : Nat := 0
  stop : Nat := 0
deriving DecidableEq, Repr

/-- The loop of `urlparse` from position `i` on, over what comes before the NUL. `prev` is `url[i - 1]`. -/
def urlparse_from (u : UrlParts) (i : Nat) (prev : UInt8) : Bytes → UrlParts
  | [] => { u with stop := i }
  | c :: rest =>
    let u :=
      if i > 0 ∧ u.host = 0 ∧ prev = 47 ∧ c = 47 then { u with host := i + 1, port := 0 }
      else if c = 93 then { u with port := 0 }
      else if c = 58 ∧ u.port = 0 ∧ u.uri = 0 then { u with port := i + 1 }
      else if c = 64 ∧ u.user = 0 ∧ u.pass = 0 then { u with user := u.host, pass := u.port, host := i + 1, port := 0 }
      else if u.host ≠ 0 ∧ u.uri = 0 ∧ c = 47 then { u with uri := i }
      else u
    urlparse_from u (i + 1) c rest

def urlparse (url : Bytes) : UrlParts := urlparse_from {} 0 0 (c_str url)

/-- The length of the host is a `size_t`. -/
def mg_url_host (url : Bytes) : Bytes :=
  let u := urlparse url
  let n :=
    if u.port ≠ 0 then (u.port + 2 ^ 64 - u.host - 1) % 2 ^ 64
    else if u.uri ≠ 0 then (u.uri + 2 ^ 64 - u.host) % 2 ^ 64
    else u.stop - u.host
  (url.drop u.host).take n

def mg_url_uri (url : Bytes) : Bytes :=
  let u := urlparse url
  if u.uri ≠ 0 then (c_str url).drop u.uri else ascii "/"

def mg_url_port (url : Bytes) : Nat :=
  let u := urlparse url
  let port := if (ascii "http:").isPrefixOf url ∨ (ascii "ws:").isPrefixOf url then 80 else 0
  let port := if (ascii "wss:").isPrefixOf url ∨ (ascii "https:").isPrefixOf url then 443 else port
  let port := if (ascii "mqtt:").isPrefixOf url then 1883 else port
  let port := if (ascii "mqtts:").isPrefixOf url then 8883 else port
  if u.port ≠ 0 then (string_to_int (url.drop u.port) % 2 ^ 16).toNat else port

/-! ## Taking an address apart -/

/-- A character that ends neither a part of a URL nor the URL. -/
def Plain (c : UInt8) : Prop := c ≠ 0 ∧ c ≠ 47 ∧ c ≠ 58 ∧ c ≠ 64 ∧ c ≠ 93

instance (c : UInt8) : Decidable (Plain c) := inferInstanceAs (Decidable (_ ∧ _))

/-- Behind the slashes plain characters change nothing. -/
theorem urlparse_plain {u : UrlParts} (hu : u.host ≠ 0) (rest l : Bytes) :
    ∀ (i : Nat) (prev : UInt8), (∀ c ∈ l, Plain c) →
      ∃ prev', urlparse_from u i prev (l ++ rest) = urlparse_from u (i + l.length) prev' rest := by
  induction l with
  | nil => intro i prev _; exact ⟨prev, rfl⟩
  | cons c l ih =>
    intro i prev hl
    rw [List.forall_mem_cons] at hl
    obtain ⟨⟨-, hslash, hcolon, hat, hbracket⟩, hrest⟩ := hl
    obtain ⟨prev', h⟩ := ih (i + 1) c hrest
    refine ⟨prev', ?_⟩
    rw [List.cons_append, urlparse_from, List.length_cons, Nat.add_comm l.length, ← Nat.add_assoc, ← h]
    simp [hu, hslash, hcolon, hat, hbracket]

theorem plain_digit {c : UInt8} (h : isdigit c = true) : Plain c :=
  ⟨isdigit_ne h (by decide), isdigit_ne h (by decide), isdigit_ne h (by decide), isdigit_ne h (by decide),
    isdigit_ne h (by decide)⟩

section
variable {u : UrlParts} (hhost : u.host ≠ 0) (huri : u.uri = 0) (i : Nat) (prev : UInt8) (rest : Bytes)
include hhost huri

theorem urlparse_colon (hport : u.port = 0) :
    urlparse_from u i prev (58 :: rest) = urlparse_from { u with port := i + 1 } (i + 1) 58 rest := by
  simp [urlparse_from, hhost, huri, hport]

theorem urlparse_slash : urlparse_from u i prev (47 :: rest) = urlparse_from { u with uri := i } (i + 1) 47 rest := by
  simp [urlparse_from, hhost, huri]

end

/-- A text without a NUL is its own C string. -/
theorem c_str_of_nonzero {l : Bytes} (h : ∀ c ∈ l, c ≠ 0) : c_str l = l :=
  List.takeWhile_eq_self_iff.2 fun c hc => bne_iff_ne.2 (h c hc)

/-- An address without a NUL, with a plain host and a plain path. -/
theorem c_str_address {ip path : Bytes} (hip : ∀ c ∈ ip, Plain c) (hpath : ∀ c ∈ path, Plain c) (port : Nat) :
    c_str (ascii "ws://" ++ ip ++ ascii ":" ++ common_to_string port ++ 47 :: path) =
      ascii "ws://" ++ ip ++ ascii ":" ++ common_to_string port ++ 47 :: path := by
  apply c_str_of_nonzero
  intro c hc
  simp only [List.mem_append, List.mem_cons] at hc
  rcases hc with (((hc | hc) | hc) | hc) | rfl | hc
  · exact (show ∀ c ∈ ascii "ws://", c ≠ 0 by decide +kernel) c hc
  · exact (hip c hc).1
  · exact (show ∀ c ∈ ascii ":", c ≠ 0 by decide +kernel) c hc
  · exact (plain_digit (isdigit_common_to_string port c hc)).1
  · decide
  · exact (hpath c hc).1

/-- The parts of an address. -/
theorem urlparse_address {ip path : Bytes} (hip : ∀ c ∈ ip, Plain c) (hpath : ∀ c ∈ path, Plain c) (port : Nat) :
    ∃ stop, urlparse (ascii "ws://" ++ ip ++ ascii ":" ++ common_to_string port ++ 47 :: path) =
      { host := 5, port := 5 + ip.length + 1, uri := 5 + ip.length + 1 + (common_to_string port).length
        stop := stop } := by
  have haddress : ascii "ws://" ++ ip ++ ascii ":" ++ common_to_string port ++ 47 :: path =
      ascii "ws://" ++ (ip ++ 58 :: (common_to_string port ++ 47 :: (path ++ []))) := by
    simp [ascii]
  have hscheme : ∀ l : Bytes, urlparse_from {} 0 0 (ascii "ws://" ++ l) = urlparse_from { host := 5 } 5 47 l :=
    fun _ => rfl
  obtain ⟨prev, hhost⟩ := urlparse_plain (u := { host := 5 }) (by simp)
    (58 :: (common_to_string port ++ 47 :: (path ++ []))) ip 5 47 hip
  obtain ⟨prev', hport⟩ := urlparse_plain (u := { host := 5, port := 5 + ip.length + 1 }) (by simp)
    (47 :: (path ++ [])) (common_to_string port) (5 + ip.length + 1) 58
    (fun c hc => plain_digit (isdigit_common_to_string port c hc))
  obtain ⟨prev'', hrest⟩ := urlparse_plain
    (u := { host := 5, port := 5 + ip.length + 1, uri := 5 + ip.length + 1 + (common_to_string port).length })
    (by simp) [] path (5 + ip.length + 1 + (common_to_string port).length + 1) 47 hpath
  rw [urlparse, c_str_address hip hpath port, haddress, hscheme, hhost, urlparse_colon (by simp) rfl _ _ _ rfl, hport,
    urlparse_slash (by simp) rfl, hrest]
  exact ⟨_, rfl⟩

/-- Before a digit there is neither white space nor a sign. -/
theorem split_sign_digit {d : UInt8} (hd : isdigit d = true) (s : Bytes) :
    split_sign ((d :: s).dropWhile isspace) = (false, d :: s) := by
  rw [List.dropWhile_cons_of_neg (by rw [isspace_digit hd]; exact Bool.false_ne_true)]
  unfold split_sign
  split
  · rename_i heq
    exact absurd (List.cons.inj heq).1 (isdigit_ne hd (by decide))
  · rename_i heq
    exact absurd (List.cons.inj heq).1 (isdigit_ne hd (by decide))
  · rfl

/-- Digits are read up to the first character that is none. -/
theorem string_to_int_digits {n : Nat} (hn : n < 2 ^ 16) {c : UInt8} (hc : isdigit c = false) (hnul : c ≠ 0)
    (rest : Bytes) : string_to_int (common_to_string n ++ c :: rest) = n := by
  have hdigits := isdigit_common_to_string n
  have hcstr : c_str (common_to_string n ++ c :: rest) = common_to_string n ++ c :: c_str rest := by
    rw [c_str, List.takeWhile_append_of_pos, List.takeWhile_cons_of_pos (by simpa using hnul)]
    · rfl
    · intro d hd
      rw [bne_iff_ne]
      exact isdigit_ne (hdigits d hd) (by decide)
  have hsign : split_sign ((common_to_string n ++ c :: c_str rest).dropWhile isspace) =
      (false, common_to_string n ++ c :: c_str rest) := by
    cases hs : common_to_string n with
    | nil => exact absurd hs (common_to_string_ne_nil n)
    | cons d s => exact split_sign_digit (hdigits d (by rw [hs]; simp)) _
  have htake : (common_to_string n ++ c :: c_str rest).takeWhile isdigit = common_to_string n := by
    rw [List.takeWhile_append_of_pos hdigits, List.takeWhile_cons_of_neg (by simp [hc]), List.append_nil]
  rw [string_to_int, string_to_long, hcstr, hsign]
  simp only [Bool.false_eq_true, if_false, htake, digits_value_common_to_string]
  rw [Int.min_eq_left (by omega), int32_of_lt (by omega)]

/-- An address is taken apart into its host, port and path, as long as the host and the path have none of the characters
that end a part. -/
theorem address_parsed {ip path : Bytes} (hip : ∀ c ∈ ip, Plain c) (hlen : ip.length < 2 ^ 63)
    (hpath : ∀ c ∈ path, Plain c) {port : Nat} (hport : port < 2 ^ 16) :
    let url := ascii "ws://" ++ ip ++ ascii ":" ++ common_to_string port ++ 47 :: path
    mg_url_host url = ip ∧ mg_url_port url = port ∧ mg_url_uri url = 47 :: path := by
  intro url
  obtain ⟨stop, hparts⟩ := urlparse_address hip hpath port
  have hcstr : c_str url = url := c_str_address hip hpath port
  have hdrop5 : url.drop 5 = ip ++ (ascii ":" ++ (common_to_string port ++ 47 :: path)) := by
    simp [url, ascii]
  have hdrop : url.drop (5 + ip.length + 1) = common_to_string port ++ 47 :: path := by
    have hone : (ascii ":").length = 1 := rfl
    rw [Nat.add_assoc, ← List.drop_drop, hdrop5, ← List.drop_drop, List.drop_left, ← hone, List.drop_left]
  refine ⟨?_, ?_, ?_⟩
  · have hn : (5 + ip.length + 1 + 2 ^ 64 - 5 - 1) % 2 ^ 64 = ip.length := by omega
    rw [mg_url_host, hparts]
    simp only [Nat.succ_ne_zero, ne_eq, not_false_eq_true, if_true, hn]
    rw [hdrop5, List.take_left]
  · rw [mg_url_port, hparts]
    simp only [Nat.succ_ne_zero, ne_eq, not_false_eq_true, if_true]
    rw [hdrop, string_to_int_digits hport (by decide) (by decide)]
    omega
  · rw [mg_url_uri, hparts]
    simp only
    rw [if_pos (by omega), hcstr, ← List.drop_drop, hdrop, List.drop_left]

/-! ## The request -/

/-- The request of `mg_ws_connect`. -/
def ws_request (url headers : Bytes) (nonce : Block 16) : Bytes :=
  ascii "GET " ++ mg_url_uri url ++ ascii " HTTP/1.1\r\n" ++ ascii "Upgrade: websocket\r\n" ++
    ascii "Host: " ++ mg_url_host url ++ ascii "\r\n" ++ ascii "Connection: Upgrade\r\n" ++ headers ++
    ascii "Sec-WebSocket-Version: 13\r\n" ++ ascii "Sec-WebSocket-Key: " ++ mg_base64_encode nonce.bytes ++
    ascii "\r\n\r\n"

/-- A line of a head. -/
structure Line (l : Bytes) : Prop where
  filled : l ≠ []
  printable : ∀ c ∈ l, 32 ≤ c

/-- A line from what can be decided of a fixed text. -/
theorem line_of {l : Bytes} (h : l ≠ [] ∧ ∀ c ∈ l, 32 ≤ c) : Line l := ⟨h.1, h.2⟩

/-- Printable text behind a line. -/
theorem Line.append {l text : Bytes} (hl : Line l) (h : ∀ c ∈ text, 32 ≤ c) : Line (l ++ text) := by
  refine ⟨List.append_ne_nil_of_left_ne_nil hl.filled text, ?_⟩
  intro c hc
  rcases List.mem_append.1 hc with hc | hc
  · exact hl.printable c hc
  · exact h c hc

/-- The head of some lines. -/
def lines_head (ls : List Bytes) : Bytes := ls.flatMap (fun l => l ++ [13, 10]) ++ [13, 10]

theorem printable_ok {c : UInt8} (h : 32 ≤ c) : isok c = true ∧ c ≠ 10 ∧ c ≠ 13 := by
  refine ⟨?_, ?_, ?_⟩
  · simp [isok, h]
  · rintro rfl
    exact absurd h (by decide)
  · rintro rfl
    exact absurd h (by decide)

/-- Within a line the head does not end. -/
theorem request_len_printable (buf rest l : Bytes) :
    ∀ i, (∀ c ∈ l, 32 ≤ c) → request_len_from buf i (l ++ rest) = request_len_from buf (i + l.length) rest := by
  induction l with
  | nil => intro i _; rfl
  | cons c l ih =>
    intro i h
    rw [List.forall_mem_cons] at h
    obtain ⟨hok, hlf, -⟩ := printable_ok h.1
    rw [List.cons_append, request_len_from, if_neg (by simp [hok]), if_neg (by simp [hlf]), ih (i + 1) h.2,
      List.length_cons, Nat.add_comm l.length, ← Nat.add_assoc]

theorem getD_after (before : Bytes) (b : UInt8) (rest : Bytes) : (before ++ b :: rest).getD before.length 0 = b := by
  rw [List.getD_append_right _ _ _ _ (Nat.le_refl _), Nat.sub_self]
  rfl

/-- A line and its end. -/
theorem request_len_line {l : Bytes} (hl : Line l) (before rest : Bytes) :
    request_len_from (before ++ (l ++ 13 :: 10 :: rest)) before.length (l ++ 13 :: 10 :: rest) =
      request_len_from (before ++ (l ++ 13 :: 10 :: rest)) (before ++ l ++ [13, 10]).length rest := by
  obtain ⟨init, c, rfl⟩ : ∃ init c, l = init ++ [c] := by
    rcases List.eq_nil_or_concat l with h | ⟨init, c, h⟩
    · exact absurd h hl.filled
    · exact ⟨init, c, by rw [h, List.concat_eq_append]⟩
  obtain ⟨-, hc, -⟩ := printable_ok (hl.printable c (by simp))
  have hlast := getD_after (before ++ init) c (13 :: 10 :: rest)
  have hreturn := getD_after (before ++ (init ++ [c])) 13 (10 :: rest)
  simp only [List.append_assoc, List.cons_append, List.nil_append, List.length_append, List.length_cons,
    List.length_nil] at hlast hreturn
  rw [request_len_printable _ _ _ _ hl.printable, request_len_from, if_neg (by decide), if_neg (by simp),
    request_len_from, if_neg (by decide), if_neg]
  · simp only [List.length_append, List.length_cons, List.length_nil, Nat.add_assoc]
  · simp only [List.append_assoc, List.cons_append, List.nil_append, List.length_append, List.length_cons,
      List.length_nil, Nat.add_sub_cancel]
    have htwo : before.length + (init.length + (0 + 1)) + 1 - 2 = before.length + init.length := by omega
    rw [htwo, hreturn, hlast]
    simp [hc]

theorem request_len_lines (ls : List Bytes) (hls : ∀ l ∈ ls, Line l) :
    ∀ before : Bytes, 2 ≤ before.length →
      request_len_from (before ++ 10 :: lines_head ls) (before.length + 1) (lines_head ls) =
        (before ++ 10 :: lines_head ls).length := by
  induction ls with
  | nil =>
    intro before hbefore
    have hfeed := getD_after before 10 [13, 10]
    have hreturn := getD_after (before ++ [10]) 13 [10]
    simp only [List.append_assoc, List.cons_append, List.nil_append, List.length_append, List.length_cons,
      List.length_nil] at hreturn
    have hhead : lines_head [] = [13, 10] := rfl
    rw [hhead, request_len_from, if_neg (by decide), if_neg (by simp), request_len_from, if_neg (by decide), if_pos]
    · simp only [List.length_append, List.length_cons, List.length_nil]
      omega
    · refine .inr ⟨by omega, rfl, ?_, ?_⟩
      · exact hreturn
      · exact hfeed
  | cons l ls ih =>
    intro before hbefore
    rw [List.forall_mem_cons] at hls
    have hhead : lines_head (l :: ls) = l ++ 13 :: 10 :: lines_head ls := by simp [lines_head]
    have hline := request_len_line hls.1 (before ++ [10]) (lines_head ls)
    have hrest := ih hls.2 (before ++ 10 :: (l ++ [13])) (by rw [List.length_append]; omega)
    simp only [List.append_assoc, List.cons_append, List.nil_append, List.length_append, List.length_cons,
      List.length_nil, hhead, Nat.add_assoc] at hline hrest ⊢
    rw [hline, hrest]

/-- A head of lines is whole. -/
theorem lines_head_whole {l : Bytes} {ls : List Bytes} (h : ∀ k ∈ l :: ls, Line k) :
    mg_http_get_request_len (lines_head (l :: ls)) = (lines_head (l :: ls)).length := by
  rw [List.forall_mem_cons] at h
  have hhead : lines_head (l :: ls) = l ++ 13 :: 10 :: lines_head ls := by simp [lines_head]
  have hpos := List.length_pos_iff.2 h.1.filled
  have hline := request_len_line h.1 [] (lines_head ls)
  have hrest := request_len_lines ls h.2 (l ++ [13]) (by rw [List.length_append]; simp; omega)
  simp only [List.append_assoc, List.cons_append, List.nil_append, List.length_append, List.length_cons,
    List.length_nil, Nat.add_assoc] at hline hrest
  rw [mg_http_get_request_len, hhead, hline, hrest]
  simp only [List.length_append, List.length_cons]

/-- The header that `WSClient::on_timer` adds. -/
def ctrl_protocol : Bytes := ascii "Sec-WebSocket-Protocol: ctrl_protocol\r\n"

/-- The lines of the request. -/
def request_lines (url : Bytes) (nonce : Block 16) : List Bytes :=
  [ascii "GET " ++ mg_url_uri url ++ ascii " HTTP/1.1", ascii "Upgrade: websocket", ascii "Host: " ++ mg_url_host url,
    ascii "Connection: Upgrade", ascii "Sec-WebSocket-Protocol: ctrl_protocol", ascii "Sec-WebSocket-Version: 13",
    ascii "Sec-WebSocket-Key: " ++ mg_base64_encode nonce.bytes]

theorem ws_request_lines (url : Bytes) (nonce : Block 16) :
    ws_request url ctrl_protocol nonce = lines_head (request_lines url nonce) := by
  simp [ws_request, ctrl_protocol, lines_head, request_lines, ascii]

theorem url_parts_printable {url : Bytes} (h : ∀ c ∈ url, 32 ≤ c) :
    (∀ c ∈ mg_url_uri url, 32 ≤ c) ∧ ∀ c ∈ mg_url_host url, 32 ≤ c := by
  refine ⟨?_, ?_⟩
  · intro c hc
    unfold mg_url_uri at hc
    simp only at hc
    split_ifs at hc
    · exact h c ((List.takeWhile_sublist _).subset (List.mem_of_mem_drop hc))
    · have hslash : ∀ c ∈ ascii "/", 32 ≤ c := by decide +kernel
      exact hslash c hc
  · intro c hc
    exact h c (List.mem_of_mem_drop (List.mem_of_mem_take hc))

/-- The request is one head: the server finds its end, and nothing is behind it. -/
theorem ws_request_whole {url : Bytes} (h : ∀ c ∈ url, 32 ≤ c) (nonce : Block 16) :
    mg_http_get_request_len (ws_request url ctrl_protocol nonce) = (ws_request url ctrl_protocol nonce).length := by
  obtain ⟨huri, hhost⟩ := url_parts_printable h
  have hget : Line (ascii "GET " ++ mg_url_uri url ++ ascii " HTTP/1.1") :=
    ((line_of (by decide +kernel)).append huri).append (by decide +kernel)
  have hkey : Line (ascii "Sec-WebSocket-Key: " ++ mg_base64_encode nonce.bytes) := by
    rw [encode_base64]
    exact (line_of (by decide +kernel)).append (base64_printable nonce.bytes)
  rw [ws_request_lines]
  apply lines_head_whole
  simp only [List.forall_mem_cons, List.not_mem_nil, false_imp_iff, implies_true, and_true]
  exact ⟨hget, line_of (by decide +kernel), (line_of (by decide +kernel)).append hhost, line_of (by decide +kernel),
    line_of (by decide +kernel), line_of (by decide +kernel), hkey⟩

end RtcClient
