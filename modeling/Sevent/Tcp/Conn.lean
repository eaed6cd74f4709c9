import Sevent.Basic
import Sevent.Chain
import Sevent.Loop.Context

-- The TCP transport (tcp_conn.c) once a connection is established: its write queue and the IO
-- handle of its socket. A notification is the last thing that happens in an operation, so what
-- the user calls in it is the next input. What the kernel, the allocator and the loop do is a
-- function of the log so far.
namespace Sevent.Tcp

open Chain (Queue)

inductive State where
  | idle | opening | opened
  deriving DecidableEq, Repr

-- One send on a non-blocking socket.
inductive SendRes where
  | wrote (n : Nat)
  -- EAGAIN or EINTR
  | again
  | failed
  deriving DecidableEq, Repr

-- One read; `data []` is the end of the stream.
inductive ReadRes where
  | data (b : Bytes)
  | again
  | failed
  deriving DecidableEq, Repr

inductive ReadCb where
  | onReadable
  | onFirstReady
  deriving DecidableEq, Repr

inductive WriteCb where
  | onWriteReady
  | onConnectReady
  | onFirstReady
  deriving DecidableEq, Repr

-- What sevent_io_register has been given.
structure IoHandle where
  fd : Int
  ioRead : Option ReadCb
  ioWrite : Option WriteCb
  deriving DecidableEq, Repr

-- A buffer of the caller: NULL with a length, or bytes.
inductive Arg where
  | null (len : Nat)
  | bytes (b : Bytes)
  deriving DecidableEq, Repr

def Arg.len : Arg → Nat
  | .null n => n
  | .bytes b => b.length

def Arg.toBytes : Arg → Bytes
  | .null _ => []
  | .bytes b => b

-- The callbacks and the `user_data` of sevent_stream_conn_init; a callback may be NULL.
structure Callbacks where
  userData : Nat
  onOpen : Bool
  onData : Bool
  onClose : Bool
  onError : Bool
  deriving DecidableEq, Repr

-- tcp_socket_connect: no descriptor, one that is closed again, or one on its way.
inductive SocketRes where
  | none
  | failed (fd : Nat)
  | started (fd : Nat)
  deriving DecidableEq, Repr

inductive Event where
  | alloc (ok : Bool)
  | ioRegister (h : IoHandle) (ok : Bool)
  | ioUnregister
  | send (data : Bytes) (res : SendRes)
  -- SHUT_WR and SHUT_RD
  | shutdown (wr rd : Bool)
  | closeFd
  | onData (b : Bytes)
  | onClose
  | onError (err : Int)
  -- sevent_tcp_conn_write has returned
  | wrote (data : Arg) (rc : Int)
  -- what on_open, on_data, on_close and on_error refer to from here on
  | callbacks (cb : Callbacks)
  | socket (host : Bytes) (port : Nat) (res : SocketRes)
  -- sevent_tcp_conn_accept has taken over a descriptor
  | accept (fd : Nat)
  | onOpen
  | read
  | setNoDelay (on : Bool)
  -- another function of the API has returned
  | returned (rc : Int)
  deriving DecidableEq, Repr

-- A node of the write queue; its `len` is the length of the data.
structure WriteNode where
  data : Bytes
  offset : Nat
  deriving DecidableEq, Repr

structure Env where
  alloc : List Event → Bool
  ioRegister : List Event → Bool
  send : List Event → Bytes → SendRes

structure Conn where
  fd : Int
  ioHandle : Option IoHandle
  state : State
  destroyed : Bool
  shutdownWrPending : Bool
  queue : Queue WriteNode
  -- the address of the next node that is allocated
  nextAddr : Nat
  log : List Event

namespace Conn

def emit (c : Conn) (e : Event) : Conn := { c with log := c.log ++ [e] }

def alloc (env : Env) (c : Conn) : Bool × Conn :=
  (env.alloc c.log, c.emit (.alloc (env.alloc c.log)))

def closeIo (c : Conn) : Conn :=
  let c := if c.ioHandle.isSome then { c.emit .ioUnregister with ioHandle := none } else c
  if 0 ≤ c.fd then { c.emit .closeFd with fd := -1 } else c

def queueClear (c : Conn) : Conn := { c with queue := .empty }

-- SEVENT_SUCCESS for on_close.
def teardown (err : Int) (c : Conn) : Conn :=
  if c.destroyed ∨ c.state = .idle then c
  else
    let c := { c.closeIo.queueClear with state := .idle }
    if err ≠ Err.success then c.emit (.onError err) else c.emit .onClose

-- The socket is registered again, for writing only while there is something to write.
def updateIo (env : Env) (c : Conn) : Conn :=
  let h : IoHandle :=
    { fd := c.fd, ioRead := some .onReadable
      ioWrite := if c.queue.head.isSome then some .onWriteReady else none }
  let c := if c.ioHandle.isSome then c.emit .ioUnregister else c
  let ok := env.ioRegister c.log
  let c := { c.emit (.ioRegister h ok) with ioHandle := if ok then some h else none }
  if ok then c else teardown Err.success c

def enqueue (env : Env) (data : Bytes) (c : Conn) : Bool × Conn :=
  let (ok, c) := c.alloc env
  if !ok then (false, c)
  else
    (true, { c with queue := c.queue.push c.nextAddr ⟨data, 0⟩, nextAddr := c.nextAddr + 1 })

-- `(int)t->write_count`
def remaining (c : Conn) : Int := Loop.toInt c.queue.count

-- The loop of tcp_flush. A turn that goes on has freed a node.
def flushLoop (env : Env) : Nat → Conn → Int × Conn
  | 0, c => (0, c)
  | fuel + 1, c =>
      match c.queue.front with
      | none => (0, c)
      | some (a, n) =>
          let rest := n.data.drop n.offset
          let w := env.send c.log rest
          let c := c.emit (.send rest w)
          match w with
          | .wrote (k + 1) =>
              let n := { n with offset := n.offset + (k + 1) }
              if n.offset < n.data.length then
                (c.remaining, { c with queue := c.queue.setItem a n })
              else flushLoop env fuel { c with queue := c.queue.pop }
          | .wrote 0 => flushLoop env fuel { c with queue := c.queue.pop }
          | .again => (c.remaining, c)
          | .failed => (-1, { c with queue := c.queue.pop })

def flush (env : Env) (c : Conn) : Int × Conn := flushLoop env c.queue.count c

def maybeShutdownWr (c : Conn) : Conn :=
  if c.shutdownWrPending ∧ c.queue.head = none then
    { c.emit (.shutdown true false) with shutdownWrPending := false }
  else c

def onWriteReady (env : Env) (c : Conn) : Conn :=
  if c.destroyed ∨ c.state ≠ .opened then c
  else
    let (left, c) := c.flush env
    if left < 0 then teardown Err.write c
    else if c.queue.head = none then updateIo env c.maybeShutdownWr
    else c

def onReadable (n : ReadRes) (c : Conn) : Conn :=
  if c.destroyed then c
  else
    match n with
    | .data [] => teardown Err.success c
    | .data b => c.emit (.onData b)
    | .again => c
    | .failed => teardown Err.read c

def write (env : Env) (data : Arg) (c : Conn) : Int × Conn :=
  match data with
  | .null (_ + 1) => (Err.inval, c)
  | _ =>
      if c.destroyed ∨ c.state ≠ .opened then (Err.inval, c)
      else if data.len = 0 then (0, c)
      else
        let (ok, c) := c.alloc env
        if !ok then (Err.nomem, c)
        else
          let (ok, c) := c.enqueue env data.toBytes
          if !ok then (Err.nomem, c)
          else
            let (left, c) := c.flush env
            if left < 0 then (Err.write, teardown Err.write c)
            else if c.queue.head.isSome then (0, updateIo env c)
            else (0, c.maybeShutdownWr)

def shutdown (wr rd : Bool) (c : Conn) : Int × Conn :=
  if c.destroyed ∨ c.state ≠ .opened then (Err.inval, c)
  else
    let c :=
      if wr then
        if c.queue.head.isSome then { c with shutdownWrPending := true }
        else c.emit (.shutdown true false)
      else c
    (0, if rd then c.emit (.shutdown false true) else c)

def close (c : Conn) : Conn := { c.closeIo.queueClear with state := .idle }

def destroy (c : Conn) : Conn := { c with destroyed := true }.close

-- What on_connect_ready and on_first_ready leave behind when they call on_open.
def opened (fd : Nat) : Conn :=
  { fd := fd, ioHandle := some ⟨fd, some .onReadable, none⟩, state := .opened, destroyed := false
    shutdownWrPending := false, queue := .empty, nextAddr := 0, log := [] }

end Conn

inductive Input where
  | write (data : Arg)
  | writeReady
  | readable (n : ReadRes)
  | shutdown (wr rd : Bool)
  | close
  | destroy
  deriving DecidableEq, Repr

namespace Conn

-- The loop reports what the handle is registered for.
def step (env : Env) (c : Conn) : Input → Conn
  | .write data =>
      let (rc, c) := c.write env data
      c.emit (.wrote data rc)
  | .writeReady =>
      if c.ioHandle.any (·.ioWrite = some .onWriteReady) then c.onWriteReady env else c
  | .readable n => if c.ioHandle.any (·.ioRead = some .onReadable) then c.onReadable n else c
  | .shutdown wr rd => (c.shutdown wr rd).2
  | .close => c.close
  | .destroy => c.destroy

def run (env : Env) (c : Conn) (inputs : List Input) : Conn := inputs.foldl (step env) c

end Conn

end Sevent.Tcp
