import RtcClient.Websocket.Address
import RtcClient.Websocket.Reception
/-!
# The WebSocket client

A `WSClient` connects when it is made and whenever its timer finds it without an open
connection. The manager polls the connections: a timer, an answer of the resolver, a
turn of a connection and a call of the client are steps, and a run is any sequence of
them. There is one connection at most, and `m_connection` is never dangling
(`one_connection`).
-/

namespace RtcClient

open Lib

/-! ## What the network answers -/

/-- `socket` and `connect` in `mg_connect_resolved`. The numbers are descriptors and `errno`. -/
inductive SocketAnswer where
  | no_socket (errno : Nat)
  | connected (fd : Nat)
  | pending (fd : Nat)
  | refused (fd errno : Nat)
deriving DecidableEq, Repr

def SocketAnswer.fd : SocketAnswer → Option Nat
  | .no_socket _ => none
  | .connected fd => some fd
  | .pending fd => some fd
  | .refused fd _ => some fd

/-- `mg_alloc_conn` and `mg_resolve` in `mg_connect`: the host is an IP address, or the resolver is asked, if it
can be. -/
inductive ConnectAnswer where
  | oom
  | address (socket : SocketAnswer)
  | request
  | failed (text : String)
deriving DecidableEq, Repr

/-- What the resolver says. -/
inductive ResolverAnswer where
  | resolved (socket : SocketAnswer)
  | failed (text : String)
deriving DecidableEq, Repr

/-- `recv`. A closed or broken connection is `failed`. -/
inductive ReadAnswer where
  | oom
  | got (chunk : Bytes)
  | would_block
  | failed
deriving DecidableEq, Repr

/-- `send`. -/
inductive WriteAnswer where
  | wrote (n : Nat)
  | would_block
  | failed
deriving DecidableEq, Repr

/-- What `select` and the calls in a turn of a connection give. `connect` is the error of the socket, if there is one,
when the connection was being made. -/
structure TurnAnswer where
  connect : Option (Option String) := none
  read : Option ReadAnswer := none
  write : Option WriteAnswer := none
deriving DecidableEq, Repr

/-! ## A connection in the manager -/

/-- The field `fd`: 0, as `calloc` leaves it, `INVALID_SOCKET`, or what `socket` has given. -/
inductive Descriptor where
  | zero
  | invalid
  | socket (fd : Nat)
deriving DecidableEq, Repr

namespace Descriptor

def isSocket : Descriptor → Bool
  | .socket _ => true
  | _ => false

/-- What `close_conn` closes: anything but `INVALID_SOCKET`. -/
def closed : Descriptor → Option Nat
  | .zero => some 0
  | .invalid => none
  | .socket fd => some fd

end Descriptor

/-- The part of `struct mg_connection` that the manager looks at. -/
structure Connection extends MgConnection where
  id : Nat
  fd : Descriptor := .zero
  is_resolving : Bool := false
  is_connecting : Bool := false
deriving DecidableEq, Repr

namespace Connection

def mg_error (c : Connection) (text : String) : Connection × List WsEvent :=
  ({ c with is_closing := true }, [.error text])

def mg_connect_resolved (c : Connection) : SocketAnswer → Connection × List WsEvent
  | .no_socket errno => mg_error { c with is_resolving := false, fd := .invalid } ("socket(): " ++ toString errno)
  | .connected fd => ({ c with is_resolving := false, fd := .socket fd }, [])
  | .pending fd => ({ c with is_resolving := false, fd := .socket fd, is_connecting := true }, [])
  | .refused fd errno => mg_error { c with is_resolving := false, fd := .socket fd } ("connect: " ++ toString errno)

def mg_resolve (c : Connection) : ConnectAnswer → Connection × List WsEvent
  | .oom => (c, [])
  | .address socket => c.mg_connect_resolved socket
  | .request => ({ c with is_resolving := true }, [])
  | .failed text => c.mg_error text

def connect_conn (c : Connection) : Option String → Connection × List WsEvent
  | none => ({ c with is_connecting := false }, [])
  | some rem => mg_error { c with is_connecting := false } ("error connecting to " ++ rem)

def read_conn (random : Nat → Block 4) (c : Connection) (answer : ReadAnswer) : Connection × List WsEvent :=
  if c.recv.length ≥ MgConnection.MG_MAX_RECV_BUF_SIZE then c.mg_error "max_recv_buf_size reached"
  else
    match answer with
    | .oom => c.mg_error "oom"
    | .got chunk =>
      let r := MgConnection.mg_ws_cb random { c.toMgConnection with recv := c.recv ++ chunk }
      ({ c with toMgConnection := r.1 }, r.2)
    | .would_block => (c, [])
    | .failed => ({ c with is_closing := true }, [])

/-- A `send` that takes nothing is an error. -/
def write_conn (c : Connection) : WriteAnswer → Connection × Bytes
  | .wrote n =>
    if n = 0 then ({ c with is_closing := true }, [])
    else ({ c with send := mg_iobuf_del c.send 0 n }, c.send.take n)
  | .would_block => (c, [])
  | .failed => ({ c with is_closing := true }, [])

def if_readable (random : Nat → Block 4) (c : Connection) : Option ReadAnswer → Connection × List WsEvent
  | none => (c, [])
  | some answer => c.read_conn random answer

def if_writable (c : Connection) : Option WriteAnswer → Connection × Bytes
  | none => (c, [])
  | some answer => c.write_conn answer

/-- The body of the loop of `mg_mgr_poll`, without the closing. The last part is what has been written. -/
def turn (random : Nat → Block 4) (c : Connection) (answer : TurnAnswer) : Connection × List WsEvent × Bytes :=
  if c.is_resolving || c.is_closing then (c, [], [])
  else if c.is_connecting then
    match answer.connect with
    | none => (c, [], [])
    | some error => ((c.connect_conn error).1, (c.connect_conn error).2, [])
  else
    let r := c.if_readable random answer.read
    let s := r.1.if_writable answer.write
    (s.1, r.2, s.2)

/-- A frame is queued. -/
def queue (random : Nat → Block 4) (c : Connection) (payload : Bytes) (op : UInt8) : Connection :=
  { c with toMgConnection := (c.toMgConnection.mg_ws_send random payload op).1 }

end Connection

/-! ## The client -/

/-- What the client does to the outside: its callbacks, the sockets, what is written on a connection, what it queues
there, and what `send_text` returns. -/
inductive ClientOut where
  | opened
  | closed
  | text (data : Bytes) (len : Nat)
  | socket (fd : Nat)
  | closesocket (fd : Nat)
  | wrote (id : Nat) (data : Bytes)
  | queued (id : Nat) (op : UInt8) (payload : Bytes)
  | returned (ok : Bool)
deriving DecidableEq, Repr

/-- The fields of `WSClient`, and its manager. A connection is known by its id, and of the callbacks it matters whether
they are set. -/
structure WSClientState where
  m_server_url : Bytes
  conns : List Connection := []
  nextid : Nat := 0
  m_connection : Option Nat := none
  m_connected : Bool := false
  m_recv_func : Bool := false
  m_ws_func : Bool := false
deriving DecidableEq, Repr

/-- The sockets that are opened on the way. -/
def ConnectAnswer.sockets : ConnectAnswer → List ClientOut
  | .address socket => (socket.fd.map ClientOut.socket).toList
  | _ => []

namespace WSClientState

def on_event_handle (w : WSClientState) : WsEvent → WSClientState × List ClientOut
  | .wsOpen => ({ w with m_connected := true }, if w.m_ws_func then [.opened] else [])
  | .wsMsg flags data len =>
    (w, if flags &&& 0x0F = WEBSOCKET_OP_TEXT ∧ w.m_recv_func = true then [.text data len] else [])
  | .close => ({ w with m_connection := none, m_connected := false }, if w.m_ws_func then [.closed] else [])
  | .error _ => (w, [])
  | .wsCtl _ _ => (w, [])

/-- The events go to the handler one after the other. -/
def handle (w : WSClientState) : List WsEvent → WSClientState × List ClientOut
  | [] => (w, [])
  | e :: es => ((handle (w.on_event_handle e).1 es).1, (w.on_event_handle e).2 ++ (handle (w.on_event_handle e).1 es).2)

/-- The connection a pointer points to. -/
def conn (w : WSClientState) (id : Nat) : Option Connection := w.conns.find? (·.id = id)

/-- A connection has changed. -/
def put (w : WSClientState) (c : Connection) : WSClientState :=
  { w with conns := w.conns.map (fun d => if d.id = c.id then c else d) }

def mg_close_conn (w : WSClientState) (id : Nat) : WSClientState × List ClientOut :=
  handle { w with conns := w.conns.filter (·.id ≠ id) } [.close]

def close_conn (w : WSClientState) (c : Connection) : WSClientState × List ClientOut :=
  ((w.mg_close_conn c.id).1, (c.fd.closed.map ClientOut.closesocket).toList ++ (w.mg_close_conn c.id).2)

/-- The connection `mg_ws_connect` makes: `mg_connect` resolves the host, then the request is queued. -/
def new_connection (w : WSClientState) (nonce : Block 16) (answer : ConnectAnswer) : Connection × List WsEvent :=
  let r := Connection.mg_resolve { id := w.nextid + 1 } answer
  ({ r.1 with send := r.1.send ++ ws_request w.m_server_url ctrl_protocol nonce }, r.2)

/-- `m_connection = mg_ws_connect(...)`. -/
def mg_ws_connect (w : WSClientState) (nonce : Block 16) (answer : ConnectAnswer) : WSClientState × List ClientOut :=
  if w.m_server_url = [] ∨ answer = .oom then ({ w with m_connection := none }, [])
  else
    let c := w.new_connection nonce answer
    let h := handle { w with nextid := w.nextid + 1, conns := c.1 :: w.conns } c.2
    ({ h.1 with m_connection := some c.1.id }, answer.sockets ++ h.2)

/-- A frame is queued on `m_connection`. `random id i` is what the `i`-th call of `mg_random` for a frame of the
connection gives. -/
def ws_send (random : Nat → Nat → Block 4) (w : WSClientState) (payload : Bytes) (op : UInt8) :
    WSClientState × List ClientOut :=
  match w.m_connection.bind w.conn with
  | none => (w, [])
  | some c => (w.put (c.queue (random c.id) payload op), [.queued c.id op payload])

def on_timer (random : Nat → Nat → Block 4) (w : WSClientState) (nonce : Block 16) (answer : ConnectAnswer) :
    WSClientState × List ClientOut :=
  if w.m_connected then w.ws_send random (ascii "ping") WEBSOCKET_OP_PING
  else
    match w.m_connection with
    | some id =>
      let r := w.mg_close_conn id
      let s := mg_ws_connect { r.1 with m_connection := none } nonce answer
      (s.1, r.2 ++ s.2)
    | none => w.mg_ws_connect nonce answer

def send_text (random : Nat → Nat → Block 4) (w : WSClientState) (msg : Bytes) : WSClientState × List ClientOut :=
  if w.m_connection.isSome && w.m_connected then
    let r := w.ws_send random msg WEBSOCKET_OP_TEXT
    (r.1, r.2 ++ [.returned true])
  else (w, [.returned false])

/-- An answer of the resolver for a connection that waits for one. -/
def resolve (w : WSClientState) (id : Nat) (answer : ResolverAnswer) : WSClientState × List ClientOut :=
  match w.conn id with
  | none => (w, [])
  | some c =>
    if !c.is_resolving then (w, [])
    else
      match answer with
      | .resolved socket =>
        let r := c.mg_connect_resolved socket
        let h := handle (w.put r.1) r.2
        (h.1, (socket.fd.map ClientOut.socket).toList ++ h.2)
      | .failed text => handle (w.put (c.mg_error text).1) (c.mg_error text).2

def wrote_out (id : Nat) (data : Bytes) : List ClientOut := if data = [] then [] else [.wrote id data]

/-- A turn of a connection in `mg_mgr_poll`. -/
def turn (random : Nat → Nat → Block 4) (w : WSClientState) (id : Nat) (answer : TurnAnswer) :
    WSClientState × List ClientOut :=
  match w.conn id with
  | none => (w, [])
  | some c =>
    let r := c.turn (random c.id) answer
    let h := handle (w.put r.1) r.2.1
    if r.1.is_closing then
      let s := h.1.close_conn r.1
      (s.1, h.2 ++ wrote_out id r.2.2 ++ s.2)
    else (h.1, h.2 ++ wrote_out id r.2.2)

end WSClientState

/-- A step of a client. -/
inductive ClientStep where
  | timer (nonce : Block 16) (answer : ConnectAnswer)
  | resolve (id : Nat) (answer : ResolverAnswer)
  | turn (id : Nat) (answer : TurnAnswer)
  | send_text (msg : Bytes)
  | set_text_received_func (set : Bool)
  | set_ws_event_func (set : Bool)

namespace WSClientState

def step (random : Nat → Nat → Block 4) (w : WSClientState) : ClientStep → WSClientState × List ClientOut
  | .timer nonce answer => w.on_timer random nonce answer
  | .resolve id answer => w.resolve id answer
  | .turn id answer => w.turn random id answer
  | .send_text msg => w.send_text random msg
  | .set_text_received_func set => ({ w with m_recv_func := set }, [])
  | .set_ws_event_func set => ({ w with m_ws_func := set }, [])

/-- The constructor: the timer runs at once. -/
def init (random : Nat → Nat → Block 4) (serverURL : Bytes) (nonce : Block 16) (answer : ConnectAnswer) :
    WSClientState × List ClientOut :=
  on_timer random { m_server_url := serverURL } nonce answer

end WSClientState

end RtcClient
