import Sevent.Stream
import Sevent.Http.Parse

-- One connection of the HTTP server (http_server.c). What the user's callbacks and the lower
-- layers do is a function of the log so far.
namespace Sevent.Http

open Sevent.Stream (WriteRes)

def headerBufSize : Nat := 4096
def processBudget : Nat := 64
def overflowProcessLimit : Nat := 16
def idleTimeoutDefaultMs : Nat := 60000

inductive ConnState where
  | new | parsing | request | awaitResp | responding | released | closing | closed
  deriving DecidableEq, Repr

-- The matrix of legal transitions, which http_state_set checks and does not enforce.
def stateOk (old ns : ConnState) : Bool :=
  match old with
  | .new => ns == .parsing || ns == .closing || ns == .closed
  | .parsing => ns == .request || ns == .closing || ns == .closed
  | .request =>
      ns == .awaitResp || ns == .responding || ns == .released || ns == .parsing || ns == .closing ||
        ns == .closed
  | .awaitResp => ns == .parsing || ns == .responding || ns == .closing || ns == .closed
  | .responding => ns == .parsing || ns == .closing || ns == .closed
  | .closing => ns == .closed
  | .released => false
  | .closed => false

-- NULL pointers are `none`; the caller's strings have no NUL inside.
structure Header where
  name : Option Bytes
  value : Option Bytes
  deriving DecidableEq, Repr

structure Response where
  status : Int
  text : Option Bytes
  close : Bool
  body : Option Bytes
  bodyLen : Nat
  headers : List Header
  deriving DecidableEq, Repr

-- The calls a user can make on a connection; `release` is made by sevent_ws_upgrade.
inductive Api where
  | respond (resp : Response)
  | write (data : Option Bytes)
  | writeEnd
  | close
  | release
  deriving DecidableEq, Repr

-- What a callback reads through the pointers of the parsed message.
structure Request where
  isResponse : Bool
  method : Method
  methodRef : Option Bytes
  target : Option Bytes
  statusCode : Nat
  upgrade : Bool
  keepAlive : Bool
  headers : Bytes
  body : Bytes
  deriving DecidableEq, Repr

def Msg.view (m : Msg) (buf : Bytes) : Request :=
  { isResponse := m.start.isResponse, method := m.start.method
    methodRef := m.start.methodRef.map (·.of buf), target := m.start.target.map (·.of buf)
    statusCode := m.start.statusCode, upgrade := m.upgrade, keepAlive := m.keepAlive
    headers := m.headers.of buf, body := m.body.of buf }

inductive Post where
  | process
  | cleanup
  deriving DecidableEq, Repr

inductive Event where
  | state (old next : ConnState)
  | onAccept
  | onRequest (r : Request)
  | onUpgrade (r : Request)
  | onConnClose
  | called (a : Api)
  | returned (rc : Int)
  -- conn_response_complete is entered
  | completing (s : ConnState) (closePending : Bool)
  | alloc (ok : Bool)
  | written (data : Bytes) (res : WriteRes)
  | shutdown
  | posted (p : Post) (ok : Bool)
  | timerRegister (ms : Nat) (ok : Bool)
  | timerUnregister
  | freed
  deriving DecidableEq, Repr

-- The user's callbacks (`none` = NULL) and the results of the layers below.
structure Env where
  onAccept : Option (List Event → List Api)
  onRequest : Option (List Event → List Api)
  -- the calls made and whether SEVENT_HTTP_UPGRADE_TAKEN is returned
  onUpgrade : Option (List Event → List Api × Bool)
  onConnClose : Bool
  idleTimeoutMs : Int
  write : List Event → WriteRes
  alloc : List Event → Bool
  post : List Event → Bool
  timer : List Event → Bool

structure Conn where
  state : ConnState
  recv : Bytes
  recvCap : Nat
  reqKeepAlive : Bool
  closePending : Bool
  released : Bool
  wrote : Bool
  idleTimer : Bool
  stream : Bool
  freed : Bool
  posts : List Post
  log : List Event
  deriving DecidableEq, Repr

-- A connection that srv_on_accept has just put on the list.
def Conn.accepted (recvCap : Nat) : Conn :=
  { state := .new, recv := [], recvCap := recvCap, reqKeepAlive := false, closePending := false
    released := false, wrote := false, idleTimer := false, stream := true, freed := false
    posts := [], log := [] }

def statusText (status : Int) : Option Bytes :=
  match status with
  | 200 => some (ascii "OK")
  | 201 => some (ascii "Created")
  | 204 => some (ascii "No Content")
  | 301 => some (ascii "Moved Permanently")
  | 302 => some (ascii "Found")
  | 304 => some (ascii "Not Modified")
  | 400 => some (ascii "Bad Request")
  | 401 => some (ascii "Unauthorized")
  | 403 => some (ascii "Forbidden")
  | 404 => some (ascii "Not Found")
  | 405 => some (ascii "Method Not Allowed")
  | 409 => some (ascii "Conflict")
  | 413 => some (ascii "Payload Too Large")
  | 429 => some (ascii "Too Many Requests")
  | 500 => some (ascii "Internal Server Error")
  | 501 => some (ascii "Not Implemented")
  | 502 => some (ascii "Bad Gateway")
  | 503 => some (ascii "Service Unavailable")
  | _ => none

-- vsnprintf needs room for the NUL as well.
def headAppend (head piece : Bytes) : Option Bytes :=
  if piece.length ≥ headerBufSize - head.length then none else some (head ++ piece)

def respHasHeader (resp : Response) (name : Bytes) : Bool :=
  resp.headers.any fun h => h.name.any (ciEq · name)

def appendHeaders (head : Bytes) : List Header → Option Bytes
  | [] => some head
  | h :: rest =>
      match h.name, h.value with
      | some n, some v =>
          (headAppend head (n ++ ascii ": " ++ v ++ ascii "\r\n")).bind (appendHeaders · rest)
      | _, _ => none

def noBodyStatus (status : Int) : Bool :=
  status == 204 || status == 304 || (100 ≤ status && status < 200)

-- The checks made before anything is allocated, and the reason phrase.
def respondText (resp : Response) : Option Bytes :=
  match resp.text.or (statusText resp.status) with
  | none => none
  | some text =>
      if resp.bodyLen > 0 ∧ resp.body = none then none
      else if noBodyStatus resp.status ∧ resp.bodyLen > 0 then none
      else some text

def respondHead (resp : Response) (text : Bytes) (closeIt : Bool) : Option Bytes := do
  let head ← headAppend [] (ascii "HTTP/1.1 " ++ ascii (toString resp.status) ++ ascii " " ++ text ++
    ascii "\r\n")
  let head ← appendHeaders head resp.headers
  let head ←
    if !noBodyStatus resp.status && !respHasHeader resp (ascii "Content-Length") then
      headAppend head (ascii "Content-Length: " ++ ascii (toString resp.bodyLen) ++ ascii "\r\n")
    else some head
  let head ←
    if closeIt && !respHasHeader resp (ascii "Connection") then
      headAppend head (ascii "Connection: close\r\n")
    else some head
  if head.length + 2 > headerBufSize then none else some (head ++ ascii "\r\n")

namespace Conn

def emit (c : Conn) (e : Event) : Conn := { c with log := c.log ++ [e] }

def dying (c : Conn) : Bool := c.state == .closing || c.state == .closed || c.state == .released

def dead (c : Conn) : Bool := c.state == .closed || c.state == .released

def stateSet (c : Conn) (next : ConnState) : Conn :=
  { c with state := next, log := c.log ++ [.state c.state next] }

variable (env : Env)

def post (c : Conn) (p : Post) : Bool × Conn :=
  let ok := env.post c.log
  (ok, { c with posts := if ok then c.posts ++ [p] else c.posts, log := c.log ++ [.posted p ok] })

def idleStop (c : Conn) : Conn :=
  if c.idleTimer then { c with idleTimer := false, log := c.log ++ [.timerUnregister] } else c

def idleReset (c : Conn) : Conn :=
  if env.idleTimeoutMs < 0 then c
  else
    let ms := if env.idleTimeoutMs = 0 then idleTimeoutDefaultMs else env.idleTimeoutMs.toNat
    let c := c.idleStop
    let ok := env.timer c.log
    { c with idleTimer := ok, log := c.log ++ [.timerRegister ms ok] }

def closeGraceful (c : Conn) : Conn :=
  if c.dying then c
  else
    let c := c.stateSet .closing
    if c.stream then c.emit .shutdown else c

def cleanup (c : Conn) : Conn := { c with freed := true, log := c.log ++ [.freed] }

-- on_conn_close finds the connection CLOSED, where every call on it is rejected.
def free (c : Conn) : Conn :=
  let c := if env.onConnClose && !c.released then c.emit .onConnClose else c
  let (ok, c) := c.post env .cleanup
  if ok then c else c.cleanup

def terminate (c : Conn) : Conn :=
  if c.dead then c
  else
    let c := (c.stateSet .closed).idleStop
    { c with stream := false }.free env

-- A write on a connection whose stream is NULL is refused.
def streamWrite (c : Conn) (data : Bytes) : Int × Conn :=
  if !c.stream then (Err.inval, c)
  else
    let res := env.write c.log
    let c := c.emit (.written data res)
    match res with
    | .failed _ => (res.ret, if c.released then c else c.terminate env)
    | .torn _ => (res.ret, if c.released then c else c.terminate env)
    | _ => (res.ret, c)

-- Result code, whether the connection has to be closed, connection.
def respondBuild (c : Conn) (resp : Response) (internalClose : Bool) : Int × Bool × Conn :=
  match respondText resp with
  | none => (Err.inval, false, c)
  | some text =>
      let ok := env.alloc c.log
      let c := c.emit (.alloc ok)
      if !ok then (Err.nomem, false, c)
      else
        let closeIt := resp.close || internalClose || !c.reqKeepAlive
        match respondHead resp text closeIt with
        | none => (Err.inval, false, c)
        | some head =>
            let (rc, c) := c.streamWrite env head
            if rc ≠ 0 then (Err.write, false, c)
            else if resp.bodyLen > 0 then
              let (rc, c) := c.streamWrite env ((resp.body.getD []).take resp.bodyLen)
              if rc ≠ 0 then (Err.write, false, c) else (Err.success, closeIt, c)
            else (Err.success, closeIt, c)

def responseComplete (c : Conn) (wasAsync : Bool) : Conn :=
  let c := c.emit (.completing c.state c.closePending)
  if c.closePending then c.closeGraceful
  else
    let c := (c.stateSet .parsing).idleReset env
    if wasAsync && c.recv ≠ [] then
      let (ok, c) := c.post env .process
      if ok then c else c.closeGraceful
    else c

def respondInternal (c : Conn) (status : Int) (closeIt : Bool) : Conn :=
  if c.dying then c
  else
    let resp : Response :=
      { status := status, text := none, close := false, body := none, bodyLen := 0, headers := [] }
    let (rc, _, c) := c.respondBuild env resp closeIt
    if rc ≠ 0 then c else { c with closePending := true }.closeGraceful

def respond (c : Conn) (resp : Response) : Int × Conn :=
  if c.state ≠ .request ∧ c.state ≠ .awaitResp then (Err.inval, c)
  else if c.wrote then (Err.inval, c)
  else
    let (rc, needShutdown, c) := c.respondBuild env resp false
    if rc ≠ 0 then (rc, c)
    else
      let wasAwait := c.state == .awaitResp
      (Err.success,
        { c with closePending := c.closePending || needShutdown }.responseComplete env wasAwait)

def write (c : Conn) (data : Option Bytes) : Int × Conn :=
  match data with
  | none => (Err.inval, c)
  | some data =>
      if c.state ≠ .request ∧ c.state ≠ .awaitResp ∧ c.state ≠ .responding then (Err.inval, c)
      else if data = [] then (Err.success, c)
      else
        let (rc, c) := c.streamWrite env data
        if rc ≠ 0 then (Err.write, c)
        else
          let c := { c with wrote := true }
          (Err.success, if c.state = .awaitResp then c.stateSet .responding else c)

def writeEnd (c : Conn) : Int × Conn :=
  if c.state ≠ .request ∧ c.state ≠ .responding then (Err.inval, c)
  else (Err.success, c.responseComplete env (c.state == .responding))

def close (c : Conn) : Conn :=
  if c.dying then c else { c with closePending := true }.closeGraceful

def release (c : Conn) : Int × Conn :=
  if c.released then (Err.inval, c)
  else if c.state ≠ .request then (Err.inval, c)
  else (Err.success, ({ c with released := true }.stateSet .released).idleStop)

def call (c : Conn) (a : Api) : Conn :=
  let c := c.emit (.called a)
  let (rc, c) :=
    match a with
    | .respond resp => c.respond env resp
    | .write data => c.write env data
    | .writeEnd => c.writeEnd env
    | .close => (Err.success, c.close)
    | .release => c.release
  c.emit (.returned rc)

def calls (c : Conn) (script : List Api) : Conn := script.foldl (fun c a => c.call env a) c

-- The residue is moved to the front; the state says whether the callback has responded.
def requestAfterCallback (c : Conn) (consumed : Nat) : Conn :=
  let c := { c with recv := c.recv.drop consumed }
  if c.state = .parsing ∨ c.dying ∨ c.state = .responding then c
  else
    let c :=
      if c.state = .request then c.stateSet (if c.wrote then .responding else .awaitResp) else c
    c.idleReset env

-- true = the connection has been taken over.
def dispatch (c : Conn) (m : Msg) : Bool × Conn :=
  if m.upgrade then
    match env.onUpgrade with
    | some cb =>
        let c := c.emit (.onUpgrade (m.view c.recv))
        let (script, taken) := cb c.log
        (taken, c.calls env script)
    | none => (false, c.respondInternal env 400 true)
  else
    match env.onRequest with
    | some cb =>
        let c := c.emit (.onRequest (m.view c.recv))
        (false, c.calls env (cb c.log))
    | none => (false, c)

-- The state in which a complete message is dispatched.
def begin (c : Conn) (m : Msg) : Conn :=
  { ({ c with reqKeepAlive := m.keepAlive }.stateSet .request) with
    closePending := !m.keepAlive, wrote := false }

def httpProcess : Nat → Conn → Conn
  | budget, c =>
      if c.recv = [] ∨ c.dying ∨ c.state ≠ .parsing then c
      else
        match budget with
        | 0 =>
            let (ok, c) := c.post env .process
            if ok then c else c.closeGraceful
        | budget + 1 =>
            match parse c.recv with
            | .error => c.respondInternal env 400 true
            | .more =>
                if c.recv.length ≥ c.recvCap then c.respondInternal env 413 true else c
            | .complete m =>
                let (taken, c) := (c.begin m).dispatch env m
                if taken then c
                else if c.dying then c
                else
                  let c := c.requestAfterCallback env m.consumed
                  if c.state = .parsing then httpProcess budget c else c

def processPost (c : Conn) : Conn :=
  if c.dying then c else if c.recv ≠ [] then c.httpProcess env processBudget else c

-- The bytes do not fit: make room first, a bounded number of times.
def overflowProcess (len : Nat) : Nat → Conn → Conn
  | 0, c => c
  | k + 1, c =>
      if !c.dying ∧ c.state = .parsing ∧ c.recv ≠ [] ∧ len > c.recvCap - c.recv.length then
        overflowProcess len k (c.httpProcess env processBudget)
      else c

def receive (c : Conn) (data : Bytes) : Conn :=
  let c := { c with recv := c.recv ++ data }.idleReset env
  if c.state = .parsing then c.httpProcess env processBudget else c

def onData (c : Conn) (data : Bytes) : Conn :=
  if c.dying then c
  else if data.length > c.recvCap - c.recv.length then
    if c.state = .parsing then
      let c := c.overflowProcess env data.length overflowProcessLimit
      if !c.dying ∧ c.state = .parsing ∧ data.length ≤ c.recvCap - c.recv.length then
        c.receive env data
      else c.closeGraceful
    else c.closeGraceful
  else c.receive env data

def onOpen (c : Conn) : Conn :=
  if c.released then c
  else
    let c :=
      match env.onAccept with
      | some cb =>
          let c := c.emit .onAccept
          c.calls env (cb c.log)
      | none => c
    if c.dying then c.idleReset env else (c.stateSet .parsing).idleReset env

def onClose (c : Conn) : Conn := if c.released then c else c.terminate env

def onIdleTimeout (c : Conn) : Conn :=
  let c := c.idleStop
  if c.state = .parsing ∨ c.state = .awaitResp ∨ c.state = .closing then c.terminate env else c

end Conn

-- What the event loop and the user do between callbacks.
inductive Step where
  | opened
  | data (d : Bytes)
  | eof
  | error
  | idleTimeout
  | post
  | call (a : Api)
  deriving DecidableEq, Repr

-- The stream reports to this layer until it is closed or handed over; a posted task runs
-- from the head of the queue.
def Conn.step (env : Env) (c : Conn) : Step → Conn
  | .opened => if c.stream && c.state == .new then c.onOpen env else c
  | .data d => if c.stream && !c.released && c.state != .new then c.onData env d else c
  | .eof => if c.stream && !c.released then c.onClose env else c
  | .error => if c.stream && !c.released then c.onClose env else c
  | .idleTimeout => if c.idleTimer then c.onIdleTimeout env else c
  | .post =>
      match c.posts with
      | [] => c
      | .process :: rest => { c with posts := rest }.processPost env
      | .cleanup :: rest => { c with posts := rest }.cleanup
  | .call a => if c.freed then c else c.call env a

def Conn.run (env : Env) (c : Conn) (steps : List Step) : Conn := steps.foldl (Conn.step env) c

end Sevent.Http
