import Xltop.Core.NBuf

/-!
# The HTTP server

One connection of the server: the flags and buffers of `struct botz_conn`, the
callbacks that read a request line by line, the header of a response, and the
callback `bc_io_cb` that the event loop runs when the socket is ready.  The
socket and the peer around it are a `World`.

The path walk and the handlers behind `bx_handle` are the application's: it
turns a request with a path into any response.  Timeouts are left out.
-/

namespace Xltop.Http

open Xltop.Buffer
open Xltop.Memory
open Xltop.Text

/-! ## Requests and responses -/

/-- `bl_q_buf_size` -/
abbrev blQBufSize : ℕ := 1048576

/-- `bl_r_header_size` -/
abbrev blRHeaderSize : ℕ := 4096

/-- `bl_r_body_size` -/
abbrev blRBodySize : ℕ := 1048576

inductive Method where
  | get
  | post
  | put
  | delete
  deriving DecidableEq, Repr

/-- A `struct botz_request`; `qBody` are the bytes of `q_body`. -/
structure Request where
  qPath : Option CString
  qQuery : Option CString
  qBody : List Byte
  qMethod : Method
  deriving DecidableEq, Repr

structure Response where
  rStatus : Int32
  rBody : NBuf
  rBodyType : CString
  rClose : Bool

/-- The response lies within the body buffer and the `char r_body_type[80]`. -/
structure Response.Ok (r : Response) : Prop where
  body : r.rBody.Check
  size : r.rBody.nbSize = blRBodySize
  type : r.rBodyType.length < 80

def botzStrstatus (status : Int32) : CString :=
  if status = 200 then lit "OK"
  else if status = 204 then lit "No Content"
  else if status = 400 then lit "Bad Request"
  else if status = 403 then lit "Forbidden"
  else if status = 404 then lit "Not Found"
  else if status = 405 then lit "Method Not Allowed"
  else if status = 408 then lit "Request Timeout"
  else if status = 500 then lit "Interval Server Error"
  else if status = 501 then lit "Not Implemented"
  else lit "Botzed"

/-- `br_write_header`: the response with its final status, and the header
buffer. -/
def brWriteHeader (r : Response) (nb : NBuf) : Response × NBuf :=
  let r := if r.rStatus < 0 then { r with rStatus := 500 } else r
  let r := if r.rStatus = 0 then { r with rStatus := 200 } else r
  let nb := nBufPrintf nb (lit "HTTP/1.1 " ++ decimalInt r.rStatus.toInt ++
    lit " " ++ botzStrstatus r.rStatus ++ lit "\r\n")
  let (r, nb) :=
    if r.rStatus = 204 then ({ r with rBody := nBufClear r.rBody }, nb)
    else (r, nBufPrintf nb (lit "Content-Type: " ++
      (if r.rBodyType.length ≠ 0 then r.rBodyType else lit "text/plain") ++
      lit "\r\nContent-Length: " ++ decimal (nBufLength r.rBody) ++ lit "\r\n"))
  let nb := if r.rStatus < 300 then
      nBufPrintf nb (lit "Access-Control-Allow-Origin: *\r\n")
    else nb
  let nb := if r.rClose then nBufPrintf nb (lit "Connection: close\r\n") else nb
  (r, nBufPrintf nb (lit "\r\n"))

/-! ## Exchanges -/

/-- `x_read_cb` -/
inductive ReadCb where
  | start
  | header
  deriving DecidableEq, Repr

structure BotzX where
  xQ : Request
  xR : Response
  xReadCb : ReadCb
  xQBodyLen : ℕ
  xClose : Bool
  xExpect100 : Bool
  xQStart : Bool
  xQBodyWait : Bool
  xQReady : Bool
  xRReady : Bool
  xRSent : Bool

/-- `bx_reset`, with the body buffer of the connection. -/
def bxReset (cRBody : NBuf) : BotzX where
  xQ := { qPath := none, qQuery := none, qBody := [], qMethod := .get }
  xR := { rStatus := 0, rBody := nBufClear cRBody, rBodyType := [], rClose := false }
  xReadCb := .start
  xQBodyLen := 0
  xClose := false
  xExpect100 := false
  xQStart := false
  xQBodyWait := false
  xQReady := false
  xRReady := false
  xRSent := false

def bxError (x : BotzX) (status : Int32) : BotzX :=
  let status := if status ≤ 0 then 400 else status
  { x with
    xR := if x.xR.rStatus < status then { x.xR with rStatus := status } else x.xR
    xClose := true
    xQReady := true }

def bxReadHeader (x : BotzX) (msg : CString) : BotzX :=
  match (split 2 (some msg)).1 with
  | [] =>
      if 0 < x.xQBodyLen then { x with xQBodyWait := true }
      else { x with xQReady := true }
  | name :: rest =>
      let value1 := rest.head?.getD []
      if strcaseEq name (lit "Connection:") then
        if strcaseEq value1 (lit "close") then { x with xClose := true } else x
      else if strcaseEq name (lit "Content-Length:") then
        { x with xQBodyLen := strtoul value1 }
      else if strcaseEq name (lit "Cookie:") then x
      else if strcaseEq name (lit "Expect:") then
        if strcaseEq value1 (lit "100-Continue") then { x with xExpect100 := true }
        else x
      else x

/-- `bx_parse_method`: the method, or the status of its `bx_error`. -/
def bxParseMethod (method : CString) : Except Int32 Method :=
  if method = lit "GET" then .ok .get
  else if method = lit "POST" then .ok .post
  else if method = lit "PUT" then .ok .put
  else if method = lit "DELETE" then .ok .delete
  else if method = lit "CONNECT" ∨ method = lit "HEAD" ∨ method = lit "OPTIONS" ∨
      method = lit "TRACE" then .error 405
  else .error 501

def bxReadStart (x : BotzX) (msg : CString) : BotzX :=
  match (split 3 (some msg)).1 with
  | [] => x
  | words =>
      let x := { x with xReadCb := .header, xQStart := true }
      match words with
      | [method, pathQuery, _] =>
          match bxParseMethod method with
          | .error status => bxError x status
          | .ok qMethod =>
              let (path, query) := strsep (· == 63) (some pathQuery)
              { x with xQ := { x.xQ with
                  qMethod := qMethod
                  qPath := path
                  qQuery := query } }
      | _ => bxError x 400

/-- The call of `x_read_cb` on a line without its newline. -/
def BotzX.read (x : BotzX) (line : List Byte) : BotzX :=
  match x.xReadCb with
  | .start => bxReadStart x (cstr line)
  | .header => bxReadHeader x (cstr line)

/-- The `while` loop of `bc_io_cb`, for at most `fuel` rounds. -/
def readLoop : ℕ → BotzX → NBuf → BotzX × NBuf
  | 0, x, nb => (x, nb)
  | fuel + 1, x, nb =>
      if nBufIsEmpty nb || x.xQReady then (x, nb)
      else if x.xQBodyWait then
        if x.xQBodyLen ≤ nBufLength nb then ({ x with xQReady := true }, nb)
        else (x, nb)
      else
        match nBufGetMsg nb with
        | none => (x, nb)
        | some (msg, nb) => readLoop fuel (x.read msg) nb

/-! ## Handlers -/

/-- The application: what `bx_lookup` and the method of the entry it finds do
with a request and the fresh response. -/
structure App (S : Type*) where
  answer : S → Request → Response → Response × S
  ok : ∀ s q r, r.Ok → (answer s q r).1.Ok

/-- Handlers never set `r_close`. -/
def App.KeepsOpen {S : Type*} (app : App S) : Prop :=
  ∀ s q r, r.rClose = false → (app.answer s q r).1.rClose = false

variable {S : Type*}

/-- `bx_handle`.  Without a path, `bp_init` fails in `bx_lookup`. -/
def bxHandle (app : App S) (s : S) (x : BotzX) : BotzX × S :=
  if x.xRReady then (x, s)
  else
    match x.xQ.qPath with
    | none => ({ bxError x (-1) with xRReady := true }, s)
    | some _ =>
        let (r, s) := app.answer s x.xQ x.xR
        ({ x with xR := r, xRReady := true }, s)

/-! ## Connections -/

/-- A set of events: `EV_READ`, `EV_WRITE` and `EV_ERROR`. -/
structure Events where
  evRead : Bool
  evWrite : Bool
  evError : Bool
  deriving DecidableEq, Repr

structure Conn where
  /-- the events that `c_io_w` asks for -/
  events : Events
  cQBuf : NBuf
  cRHeader : NBuf
  cRBody : NBuf
  cX : BotzX

/-- A request passed to `bx_handle`, the response as `br_write_header` leaves
it, and the number of interim responses queued for the request before. -/
structure Exchange where
  interim : ℕ
  request : Request
  response : Response

/-- A connection, its application and its peer: what the peer has sent and
nobody read, what the socket has accepted, and the exchanges so far. -/
structure World (S : Type*) where
  closed : Bool
  conn : Conn
  app : S
  unread : List Byte
  written : List Byte
  interim : ℕ
  handled : List Exchange

/-- What the system calls of one callback return: `read`, and `write` of the
header and of the body. -/
structure Sys where
  read : Rc
  header : Rc
  body : Rc

namespace World

def setX (w : World S) (x : BotzX) : World S :=
  { w with conn := { w.conn with cX := x } }

def setEvents (w : World S) (events : Events) : World S :=
  { w with conn := { w.conn with events := events } }

/-- `bx_reset` -/
def reset (w : World S) : World S :=
  w.setX (bxReset w.conn.cRBody)

/-- `bc_close` -/
def close (w : World S) : World S :=
  { w with closed := true }

end World

/-- How `bc_io_cb` returns. -/
inductive Exit where
  | close
  | requestNotResponse
  | responseNotSent
  | done
  deriving DecidableEq, Repr

/-! ## bc_io_cb -/

/-- What the header buffer has let go is written. -/
def World.drainHeader (w : World S) (d : Drained) : World S :=
  { w with
    conn := { w.conn with cRHeader := d.nb }
    written := w.written ++ d.out }

/-- What the body has let go is written. -/
def World.drainBody (w : World S) (b : Drained) : World S :=
  let x := w.conn.cX
  { w with
    conn := { w.conn with
      cX := { x with
        xR := { x.xR with rBody := b.nb }
        xRSent := x.xRSent || b.eof } }
    written := w.written ++ b.out }

/-- The part under `EV_WRITE`, and whether there was an error. -/
def bcWrite (w : World S) (sys : Sys) : World S × Bool :=
  let d := nBufDrain w.conn.cRHeader sys.header
  let w := w.drainHeader d
  if d.err then (w, true)
  else if d.eof && w.conn.cX.xRReady then
    let b := nBufDrain w.conn.cX.xR.rBody sys.body
    (w.drainBody b, b.err)
  else (w, false)

/-- The interim response, and the events to ask for because of it. -/
def bcExpect (w : World S) : World S × Events :=
  let x := w.conn.cX
  if x.xExpect100 && !x.xQReady && x.xR.rStatus < 400 then
    ({ w with
      conn := { w.conn with
        cRHeader := nBufPrintf w.conn.cRHeader (lit "HTTP/1.1 100 Continue\r\n\r\n")
        cX := { x with xExpect100 := false } }
      interim := w.interim + 1 }, ⟨true, true, false⟩)
  else (w, ⟨false, false, false⟩)

/-- A request has been handled, and its header queued. -/
def World.reply (w : World S) (bodyLen : ℕ) (x : BotzX) (s : S) (r : Response)
    (header : NBuf) : World S :=
  { w with
    conn := { w.conn with
      cQBuf := { w.conn.cQBuf with nbStart := w.conn.cQBuf.nbStart + bodyLen }
      cRHeader := header
      cX := { x with xR := r } }
    app := s
    interim := 0
    handled := w.handled ++ [⟨w.interim, x.xQ, r⟩] }

/-- `q_body` is set. -/
def BotzX.withBody (x : BotzX) (body : List Byte) : BotzX :=
  { x with xQ := { x.xQ with qBody := body } }

/-- A request that is ready is handled. -/
def bcHandle (app : App S) (w : World S) : World S :=
  let x := w.conn.cX
  if x.xQReady && !x.xRReady then
    let bodyLen := x.xQBodyLen
    let body := slice w.conn.cQBuf.nbBuf w.conn.cQBuf.nbStart bodyLen
    let (x, s) := bxHandle app w.app (x.withBody body)
    let (r, header) := brWriteHeader x.xR w.conn.cRHeader
    w.reply bodyLen x s r header
  else w

/-- From the interim response to the end. -/
def bcAnswer (app : App S) (w : World S) (eof : Bool) : World S :=
  let (w, events) := bcExpect w
  let w := bcHandle app w
  let c := w.conn
  w.setEvents
    { evRead := events.evRead || !eof
      evWrite := events.evWrite || (!nBufIsEmpty c.cRHeader ||
        (c.cX.xRReady && !nBufIsEmpty c.cRBody))
      evError := false }

/-- What the request buffer has taken is read. -/
def World.fill (w : World S) (f : Filled) : World S :=
  { w with
    conn := { w.conn with cQBuf := f.nb }
    unread := f.unread }

/-- The lines at hand are read. -/
def World.readLines (w : World S) : World S :=
  let (x, nb) := readLoop (nBufLength w.conn.cQBuf + 1) w.conn.cX w.conn.cQBuf
  { w with conn := { w.conn with cQBuf := nb, cX := x } }

/-- From `n_buf_fill` on. -/
def bcRead (app : App S) (w : World S) (revents : Events) (sys : Sys) :
    Exit × World S :=
  let f := if revents.evRead then nBufFill w.conn.cQBuf w.unread sys.read
    else ⟨w.conn.cQBuf, w.unread, false, false⟩
  let w := w.fill f
  if f.err then (.close, w.close)
  else
    let w := w.readLines
    if f.eof && !w.conn.cX.xQStart then (.close, w.close)
    else if f.eof && !w.conn.cX.xQReady then
      -- an incomplete request
      (.done, bcAnswer app (w.setX (bxError (bxReset w.conn.cRBody) 400)) f.eof)
    else (.done, bcAnswer app w f.eof)

def bcIoCb (app : App S) (w : World S) (revents : Events) (sys : Sys) :
    Exit × World S :=
  if revents.evError then (.close, w.close)
  else
    let (w, err) := if revents.evWrite then bcWrite w sys else (w, false)
    let x := w.conn.cX
    if err then (.close, w.close)
    else if x.xQReady && !x.xRReady then
      (.requestNotResponse, w.setEvents ⟨false, false, false⟩)
    else if x.xRReady && !x.xRSent then
      (.responseNotSent, w.setEvents ⟨false, true, false⟩)
    else if x.xRSent then
      if x.xClose || x.xR.rClose then (.close, w.close)
      else bcRead app w.reset revents sys
    else bcRead app w revents sys

/-! ## Runs -/

/-- One turn of the event loop: the events that are ready, and what the system
calls return. -/
structure Turn where
  ready : Events
  sys : Sys

/-- No system call fails. -/
def Turn.Clean (t : Turn) : Prop :=
  t.sys.read ≠ .error ∧ t.sys.header ≠ .error ∧ t.sys.body ≠ .error

/-- Of the events that are ready, the ones that were asked for. -/
def Turn.revents (t : Turn) (events : Events) : Events where
  evRead := t.ready.evRead && events.evRead
  evWrite := t.ready.evWrite && events.evWrite
  evError := t.ready.evError && events.evError

namespace World

/-- The callback on the events that were asked for. -/
def callback (app : App S) (w : World S) (t : Turn) : Exit × World S :=
  bcIoCb app w (t.revents w.conn.events) t.sys

/-- Nothing happens on a closed connection. -/
def step (app : App S) (w : World S) (t : Turn) : World S :=
  if w.closed then w else (w.callback app t).2

def run (app : App S) (w : World S) (turns : List Turn) : World S :=
  turns.foldl (step app) w

end World

/-- `bl_listen_cb` with the three blocks that `malloc` returns, on a connection
over which the peer sends a stream up to its end. -/
def blListenCb (block : Fin 3 → ℕ → Byte) (s : S) (stream : List Byte) : World S :=
  let cRBody := nBufInit (block 2) blRBodySize
  { closed := false
    conn :=
      { events := ⟨true, false, false⟩
        cQBuf := nBufInit (block 0) blQBufSize
        cRHeader := nBufInit (block 1) blRHeaderSize
        cRBody := cRBody
        cX := bxReset cRBody }
    app := s
    unread := stream
    written := []
    interim := 0
    handled := [] }

end Xltop.Http
