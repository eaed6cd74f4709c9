import Sevent.Tcp.Conn

-- A sevent_tcp_conn over its whole life: open, accept, the connect timer, and back to IDLE.
-- `Conn` is what it has of an established connection.
namespace Sevent.Tcp

def recvDefault : Nat := 4096
def connectTimeoutDefault : Int := 10000

-- sevent_stream_conn_init
structure Init extends Callbacks where
  connectTimeoutMs : Int
  recvBufSize : Nat
  deriving DecidableEq, Repr

-- on_close and on_error are called if the callbacks in the log have them.
structure Object where
  conn : Conn
  -- connect_timer is not NULL
  connectTimer : Bool
  -- the capacity of recv_buf, once it has been allocated
  recvBuf : Option Nat

namespace Object

def create : Object :=
  { conn :=
      { fd := -1, ioHandle := none, state := .idle, destroyed := false, shutdownWrPending := false,
        queue := .empty, nextAddr := 0, log := [] }
    connectTimer := false
    recvBuf := none }

def emit (o : Object) (e : Event) : Object := { o with conn := o.conn.emit e }

-- tcp_teardown and sevent_tcp_conn_close unregister the connect timer.
def onConn (f : Conn → Conn) (o : Object) : Object :=
  { o with conn := f o.conn, connectTimer := o.connectTimer && (f o.conn).state ≠ .idle }

def capacity (recvBufSize : Nat) : Nat := if recvBufSize = 0 then recvDefault else recvBufSize

-- `ok`: what the allocator says, if it is asked.
def setupRecv (recvBufSize : Nat) (ok : Bool) (o : Object) : Bool × Object :=
  if o.recvBuf = some (capacity recvBufSize) then (true, o)
  else (ok, { o with recvBuf := if ok then some (capacity recvBufSize) else none })

def ioRegister (env : Env) (h : IoHandle) (o : Object) : Object :=
  let ok := env.ioRegister o.conn.log
  { o with conn := { o.conn.emit (.ioRegister h ok) with ioHandle := if ok then some h else none } }

-- 0 stands for the default; a negative timeout for no timer.
def registerConnectIo (env : Env) (fd : Nat) (connectTimeoutMs : Int) (timerOk : Bool)
    (o : Object) : Bool × Object :=
  let o := o.ioRegister env ⟨fd, none, some .onConnectReady⟩
  if o.conn.ioHandle = none then (false, o.emit .closeFd)
  else
    let o := { o with conn := { o.conn with fd := fd, state := .opening } }
    let ms := if connectTimeoutMs = 0 then connectTimeoutDefault else connectTimeoutMs
    if 0 < ms then
      if timerOk then (true, { o with connectTimer := true })
      else (false, { o with conn := { o.conn.closeIo with state := .idle }, connectTimer := false })
    else (true, o)

def openConn (env : Env) (host : Option Bytes) (port : Nat) (init : Option Init) (recvOk : Bool)
    (res : SocketRes) (timerOk : Bool) (o : Object) : Int × Object :=
  match host, init with
  | some host, some init =>
      if !init.onOpen || !init.onData || o.conn.state ≠ .idle then (Err.inval, o)
      else
        let (ok, o) := o.setupRecv init.recvBufSize recvOk
        if !ok then (Err.nomem, o)
        else
          let o := o.emit (.socket host port res)
          match res with
          | .none => (Err.connect, o)
          | .failed _ => (Err.connect, o.emit .closeFd)
          | .started fd =>
              let o := o.emit (.callbacks init.toCallbacks)
              let (ok, o) := o.registerConnectIo env fd init.connectTimeoutMs timerOk
              (if ok then 0 else Err.nomem, o)
  | _, _ => (Err.inval, o)

-- `fcntlOk`: the descriptor could be made non-blocking.
def accept (env : Env) (fd : Int) (fcntlOk : Bool) (init : Option Init) (recvOk : Bool)
    (o : Object) : Int × Object :=
  match init with
  | some init =>
      if fd < 0 || !init.onOpen || !init.onData || o.conn.state ≠ .idle then (Err.inval, o)
      else if !fcntlOk then (Err.inval, o)
      else
        let (ok, o) := o.setupRecv init.recvBufSize recvOk
        if !ok then (Err.nomem, o)
        else
          let o := o.emit (.callbacks init.toCallbacks)
          let o := { o with conn := { o.conn with state := .opening, fd := fd } }
          let o := o.ioRegister env ⟨fd, some .onFirstReady, some .onFirstReady⟩
          if o.conn.ioHandle = none then
            (Err.nomem, { o with conn := { o.conn with fd := -1, state := .idle } })
          else (0, o.emit (.accept fd.toNat))
  | none => (Err.inval, o)

-- The rest of on_connect_ready and on_first_ready; tcp_update_io may tear the connection down.
def opened (env : Env) (o : Object) : Object :=
  let o := o.onConn fun c => Conn.updateIo env { c with state := .opened }
  if o.conn.state = .idle then o else o.emit .onOpen

-- `soOk`: no SO_ERROR.
def onConnectReady (env : Env) (soOk : Bool) (o : Object) : Object :=
  if o.conn.destroyed ∨ o.conn.state ≠ .opening then o
  else
    let o := { o with connectTimer := false }
    if !soOk then o.onConn (Conn.teardown Err.connect)
    else opened env o

def onConnectTimeout (o : Object) : Object :=
  if o.conn.destroyed ∨ o.conn.state ≠ .opening then o
  else { o with connectTimer := false }.onConn (Conn.teardown Err.connect)

def onFirstReady (env : Env) (o : Object) : Object :=
  if o.conn.destroyed ∨ o.conn.state ≠ .opening then o
  else opened env o

def setNoDelay (on : Bool) (o : Object) : Object :=
  if o.conn.fd < 0 then o else o.emit (.setNoDelay on)

end Object

-- A call of the API, or an event of the loop with what the system calls in it answer.
inductive ObjectInput where
  | openConn (host : Option Bytes) (port : Nat) (init : Option Init) (recvOk : Bool) (res : SocketRes)
      (timerOk : Bool)
  | accept (fd : Int) (fcntlOk : Bool) (init : Option Init) (recvOk : Bool)
  | connectReady (soOk : Bool)
  | connectTimeout
  | firstReady
  | readable (n : ReadRes)
  | writeReady
  | write (data : Arg)
  | shutdown (wr rd : Bool)
  | setCallbacks (cb : Callbacks)
  | setNoDelay (on : Bool)
  | close
  | destroy
  deriving DecidableEq, Repr

namespace Object

def returned (r : Int × Object) : Object := r.2.emit (.returned r.1)

-- The loop reports what is registered; nothing may be called after sevent_tcp_conn_destroy.
def step (env : Env) (o : Object) (i : ObjectInput) : Object :=
  if o.conn.destroyed then o
  else
    match i with
    | .openConn host port init recvOk res timerOk =>
        returned (o.openConn env host port init recvOk res timerOk)
    | .accept fd fcntlOk init recvOk => returned (o.accept env fd fcntlOk init recvOk)
    | .connectReady soOk =>
        if o.conn.ioHandle.any (·.ioWrite = some .onConnectReady) then o.onConnectReady env soOk
        else o
    | .connectTimeout => if o.connectTimer then o.onConnectTimeout else o
    | .firstReady =>
        if o.conn.ioHandle.any (·.ioWrite = some .onFirstReady) then o.onFirstReady env else o
    | .readable n =>
        if o.conn.ioHandle.any (·.ioRead = some .onReadable) then
          (o.emit .read).onConn (Conn.onReadable n)
        else o
    | .writeReady => o.onConn fun c => c.step env .writeReady
    | .write data => o.onConn fun c => c.step env (.write data)
    | .shutdown wr rd =>
        let (rc, conn) := o.conn.shutdown wr rd
        returned (rc, { o with conn := conn })
    | .setCallbacks cb => o.emit (.callbacks cb)
    | .setNoDelay on => o.setNoDelay on
    | .close => o.onConn Conn.close
    | .destroy => o.onConn Conn.destroy

def run (env : Env) (o : Object) (inputs : List ObjectInput) : Object := inputs.foldl (step env) o

end Object

end Sevent.Tcp
