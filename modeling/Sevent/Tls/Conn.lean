import Sevent.Basic

-- The life cycle of a TLS connection object (tls_conn.c): create, open, accept, close and the
-- ways in which a round ends. The engine and the socket are outside; what they answer is part
-- of each operation.
namespace Sevent.Tls

inductive TcpState where
  | idle
  | opening
  | opened
  deriving DecidableEq, Repr

inductive Event where
  -- an open call that returned 0
  | opened (host : Bytes)
  -- an accept call that returned 0
  | accepted
  -- the arguments of sevent_ssl_new
  | sslNew (isServer : Bool) (hostname : Option Bytes)
  | onOpen
  | onClose
  | onError (err : Int)
  deriving DecidableEq, Repr

structure Conn where
  tcp : TcpState
  ssl : Bool
  isServer : Bool
  established : Bool
  handshakeDone : Bool
  closedNotified : Bool
  destroyed : Bool
  hostname : Option Bytes
  hasOnClose : Bool
  hasOnError : Bool
  log : List Event
  deriving DecidableEq, Repr

-- `init.on_open` and `init.on_data` must be set; the other two callbacks are optional.
structure Init where
  hasOnOpen : Bool
  hasOnData : Bool
  hasOnClose : Bool
  hasOnError : Bool
  deriving DecidableEq, Repr

-- A call of the public API with what the allocator and the TCP layer answer.
inductive Op where
  | openConn (host : Bytes) (init : Init) (recvBuf name : Bool) (tcpRc : Int)
  | accept (fd : Int) (init : Init) (recvBuf : Bool) (tcpRc : Int)
  | close
  | destroy
  deriving DecidableEq, Repr

namespace Conn

def create (tlsHostname : Option Bytes) : Conn :=
  { tcp := .idle, ssl := false, isServer := false, established := false, handshakeDone := false,
    closedNotified := false, destroyed := false, hostname := tlsHostname, hasOnClose := false,
    hasOnError := false, log := [] }

def emit (t : Conn) (e : Event) : Conn := { t with log := t.log ++ [e] }

def tlsResetAfterTerm (t : Conn) : Conn :=
  { t with ssl := false, established := false, handshakeDone := false, closedNotified := false }

-- `init` is copied before anything can fail.
def enter (t : Conn) (isServer : Bool) (init : Init) : Conn :=
  { t with
    isServer := isServer, established := true,
    hasOnClose := init.hasOnClose, hasOnError := init.hasOnError }

-- sevent_tcp_conn_open and _accept refuse an object that is not IDLE.
def tcpStart (t : Conn) (tcpRc : Int) : Int := if t.tcp = .idle then tcpRc else Err.inval

def openConn (t : Conn) (host : Bytes) (init : Init) (recvBuf name : Bool) (tcpRc : Int) :
    Conn × Int :=
  if !init.hasOnOpen || !init.hasOnData || t.established || t.destroyed then (t, Err.inval)
  else
    let t := t.enter false init
    if !recvBuf then (t.tlsResetAfterTerm, Err.nomem)
    else if !name then (t.tlsResetAfterTerm, Err.nomem)
    else
      let t := { t with hostname := some (t.hostname.getD host) }
      let rc := t.tcpStart tcpRc
      if rc < 0 then (t.tlsResetAfterTerm, rc)
      else ({ t with tcp := .opening }.emit (.opened host), rc)

def accept (t : Conn) (fd : Int) (init : Init) (recvBuf : Bool) (tcpRc : Int) : Conn × Int :=
  if !init.hasOnOpen || !init.hasOnData || t.established || t.destroyed || fd < 0 then
    (t, Err.inval)
  else
    let t := t.enter true init
    if !recvBuf then (t.tlsResetAfterTerm, Err.nomem)
    else
      let rc := t.tcpStart tcpRc
      if rc < 0 then (t.tlsResetAfterTerm, rc)
      else ({ t with tcp := .opening }.emit .accepted, rc)

def close (t : Conn) : Conn := { t.tlsResetAfterTerm with tcp := .idle }

def destroy (t : Conn) : Conn :=
  if t.destroyed then t else { t with destroyed := true }.close

end Conn

def Op.run (op : Op) (t : Conn) : Conn :=
  match op with
  | .openConn host init recvBuf name tcpRc => (t.openConn host init recvBuf name tcpRc).1
  | .accept fd init recvBuf tcpRc => (t.accept fd init recvBuf tcpRc).1
  | .close => t.close
  | .destroy => t.destroy

namespace Conn

-- A user callback is the last thing these functions do: the calls it makes are the steps of the
-- run that follow.
def tlsFail (t : Conn) (err : Int) : Conn :=
  let notify := !t.closedNotified
  let t := t.tlsResetAfterTerm
  if notify && t.hasOnError then { t with closedNotified := true }.emit (.onError err) else t

def tlsNotifyClose (t : Conn) : Conn :=
  if t.closedNotified then t
  else
    let t := { t.tlsResetAfterTerm with closedNotified := true }
    if t.hasOnClose then t.emit .onClose else t

def tlsStartHandshake (t : Conn) (sslNew : Bool) : Conn :=
  if t.destroyed then t
  else
    let t := t.emit (.sslNew t.isServer t.hostname)
    if sslNew then { t with ssl := true } else t.tlsFail Err.handshake

end Conn

-- What the TCP layer and the engine may report.
inductive Report where
  | tcpOpen (sslNew : Bool)
  | handshakeDone
  | handshakeFailed
  -- a fatal error of the engine or of the socket while data flows
  | dataFailed (err : Int)
  | tcpClose
  | tcpError
  deriving DecidableEq, Repr

inductive Step where
  | call (op : Op)
  | report (r : Report)
  deriving DecidableEq, Repr

def Report.run (r : Report) (t : Conn) : Conn :=
  match r with
  | .tcpOpen sslNew =>
      if t.tcp = .opening then { t with tcp := .opened }.tlsStartHandshake sslNew else t
  | .handshakeDone =>
      if t.destroyed || !t.ssl || t.handshakeDone then t
      else { t with handshakeDone := true }.emit .onOpen
  | .handshakeFailed =>
      if t.destroyed || !t.ssl || t.handshakeDone then t else t.tlsFail Err.handshake
  | .dataFailed err =>
      if t.destroyed || !t.ssl || !t.handshakeDone then t else t.tlsFail err
  | .tcpClose =>
      if t.tcp = .idle then t
      else
        let t := { t with tcp := .idle }
        if t.destroyed then t
        else if !t.handshakeDone then t.tlsFail Err.connect
        else if !t.ssl then t
        else t.tlsNotifyClose
  | .tcpError =>
      if t.tcp = .idle then t
      else
        let t := { t with tcp := .idle }
        if t.destroyed then t
        else t.tlsFail (if t.handshakeDone then Err.read else Err.connect)

def Step.run (s : Step) (t : Conn) : Conn :=
  match s with
  | .call op => op.run t
  | .report r => r.run t

def runSteps (steps : List Step) (t : Conn) : Conn := steps.foldl (fun t s => s.run t) t

end Sevent.Tls
