import Sevent.Stream
import Sevent.Tls.Conn

-- A TLS connection object at work (tls_conn.c): the handshake, the data, and callbacks that call
-- the object again. What the engine, the allocator and the callbacks do is a function of the log
-- so far.
namespace Sevent.Tls

open Sevent.Stream (WriteRes)

-- `init` with its `user_data`
structure Setup extends Init where
  userData : Nat
  deriving DecidableEq, Repr

inductive Api where
  | openConn (host : Bytes) (setup : Setup) (recvBuf name : Bool) (tcpRc : Int)
  | accept (fd : Int) (setup : Setup) (recvBuf : Bool) (tcpRc : Int)
  | write (data : Bytes)
  | close
  | destroy
  deriving DecidableEq, Repr

inductive Note where
  -- open or accept has begun a round
  | began (userData : Nat)
  | onOpen (userData : Nat)
  | onData (userData : Nat) (data : Bytes)
  -- with the state in which the callback is entered
  | onClose (userData : Nat) (tcp : TcpState) (established : Bool)
  | onError (userData : Nat) (err : Int) (tcp : TcpState) (established : Bool)
  -- the callback is NULL
  | unheard (userData : Nat)
  -- tls_fail or tls_notify_close is entered
  | ending (tcp : TcpState) (established closedNotified : Bool)
  -- tls_send_cipher drains an engine that has been freed
  | nullEngine
  | closeCall
  | destroyCall
  | returned (rc : Int)
  deriving DecidableEq, Repr

-- Each turn of a loop over the engine comes with what the TCP layer answers to the ciphertext
-- that is drained in it.
inductive Shake where
  | done | wantRead | failed
  deriving DecidableEq, Repr

structure SslShake where
  -- the turns that want to write
  retries : List (List WriteRes)
  last : Shake
  cipher : List WriteRes

inductive ReadEnd where
  | eof | want | failed
  deriving DecidableEq, Repr

structure SslRead where
  chunks : List (Bytes × List WriteRes)
  last : ReadEnd
  cipher : List WriteRes

inductive SslWrite where
  | wrote (n : Nat) (cipher : List WriteRes) (next : SslWrite)
  | wantWrite (cipher : List WriteRes) (next : SslWrite)
  -- sevent_tls_conn_write parks what is left (`ok`: there is memory for it), tls_flush_pending
  -- goes on
  | wantRead (ok : Bool) (cipher : List WriteRes) (next : SslWrite)
  | failed

structure Env where
  sslNew : List Note → Bool
  handshake : List Note → SslShake
  feed : List Note → Bytes → Bool
  read : List Note → SslRead
  -- after sevent_ssl_peer_close, what has been fed is used up and then read returns 0
  readClosed : List Note → SslRead
  readClosed_ends : ∀ log, (readClosed log).last ≠ .want
  write : List Note → Nat → SslWrite
  onOpen : List Note → List Api
  onData : List Note → List Api
  onClose : List Note → List Api
  onError : List Note → List Api

structure Session where
  conn : Conn
  userData : Nat
  -- pending_len
  pending : Nat
  log : List Note

namespace Session

def create (tlsHostname : Option Bytes) : Session := ⟨Conn.create tlsHostname, 0, 0, []⟩

def note (s : Session) (e : Note) : Session := { s with log := s.log ++ [e] }

def reset (s : Session) : Session := { s with conn := s.conn.tlsResetAfterTerm, pending := 0 }

def setTcp (s : Session) (tcp : TcpState) : Session := { s with conn := { s.conn with tcp := tcp } }

-- An open or accept call that gets past its checks copies `init`, and a failure resets.
def entered (s : Session) (ok : Bool) (setup : Setup) (r : Conn × Int) : Int × Session :=
  let s :=
    { s with
      conn := r.1
      userData := if ok then setup.userData else s.userData
      pending := if ok && r.2 < 0 then 0 else s.pending }
  (r.2, if 0 ≤ r.2 then s.note (.began setup.userData) else s)

def enters (s : Session) (setup : Setup) : Bool :=
  setup.hasOnOpen && setup.hasOnData && !s.conn.established && !s.conn.destroyed

def openConn (host : Bytes) (setup : Setup) (recvBuf name : Bool) (tcpRc : Int) (s : Session) :
    Int × Session :=
  s.entered (s.enters setup) setup (s.conn.openConn host setup.toInit recvBuf name tcpRc)

def accept (fd : Int) (setup : Setup) (recvBuf : Bool) (tcpRc : Int) (s : Session) : Int × Session :=
  s.entered (s.enters setup && 0 ≤ fd) setup (s.conn.accept fd setup.toInit recvBuf tcpRc)

def close (s : Session) : Session := ((s.note .closeCall).reset).setTcp .idle

def destroy (s : Session) : Session :=
  if s.conn.destroyed then s
  else ({ s with conn := { s.conn with destroyed := true } }.note .destroyCall).close

-- A call from on_close or on_error. The round is over, and another one has not come to its
-- handshake: write is refused.
def callEnded (a : Api) (s : Session) : Session :=
  let (rc, s) :=
    match a with
    | .openConn host setup recvBuf name tcpRc => s.openConn host setup recvBuf name tcpRc
    | .accept fd setup recvBuf tcpRc => s.accept fd setup recvBuf tcpRc
    | .write _ => (Err.inval, s)
    | .close => (0, s.close)
    | .destroy => (0, s.destroy)
  s.note (.returned rc)

def callsEnded (script : List Api) (s : Session) : Session := script.foldl (fun s a => callEnded a s) s

def ending (s : Session) : Session :=
  s.note (.ending s.conn.tcp s.conn.established s.conn.closedNotified)

def notified (s : Session) : Session := { s with conn := { s.conn with closedNotified := true } }

section

variable (env : Env)

def tlsFail (err : Int) (s : Session) : Session :=
  let notify := !s.conn.closedNotified
  let s := s.ending.reset
  if notify then
    if s.conn.hasOnError then
      let s := s.notified.note (.onError s.userData err s.conn.tcp s.conn.established)
      callsEnded (env.onError s.log) s
    else s.note (.unheard s.userData)
  else s

def tlsNotifyClose (s : Session) : Session :=
  let notify := !s.conn.closedNotified
  let s := s.ending
  if notify then
    let s := s.reset.notified
    if s.conn.hasOnClose then
      let s := s.note (.onClose s.userData s.conn.tcp s.conn.established)
      callsEnded (env.onClose s.log) s
    else s.note (.unheard s.userData)
  else s

def tcpCbError (s : Session) : Session :=
  if s.conn.destroyed then s
  else tlsFail env (if s.conn.handshakeDone then Err.read else Err.connect) s

-- ---- over the TCP object, whose callbacks run inside its write ----

variable (cbClose cbError : Session → Session)

def tcpWrite (res : WriteRes) (s : Session) : Int × Session :=
  if s.conn.tcp ≠ .opened then (Err.inval, s)
  else
    match res with
    | .failed _ => (Err.write, cbError (s.setTcp .idle))
    | .torn _ => (Err.success, cbClose (s.setTcp .idle))
    | res => (res.ret, s)

-- The engine is looked at again after each write.
def sendCipherLoop : List WriteRes → Session → Int × Session
  | [], s => if s.conn.ssl then (0, s) else (-1, s.note .nullEngine)
  | res :: rest, s =>
      if !s.conn.ssl then (-1, s.note .nullEngine)
      else
        let (rc, s) := tcpWrite cbClose cbError res s
        if rc = Err.inval then (1, s)
        else if rc ≠ 0 then (-1, tlsFail env Err.write s)
        else sendCipherLoop rest s

def tlsSendCipher (cipher : List WriteRes) (s : Session) : Int × Session :=
  if !s.conn.ssl then (1, s) else sendCipherLoop env cbClose cbError cipher s

def writeLoop : SslWrite → Nat → Session → Int × Session
  | _, 0, s => (0, s)
  | turn, left + 1, s =>
      if s.conn.destroyed || !s.conn.ssl then (Err.inval, s)
      else
        match turn with
        | .wrote n cipher next =>
            let (sc, s) := tlsSendCipher env cbClose cbError cipher s
            if sc < 0 then (Err.write, s)
            else if sc > 0 then (Err.inval, s)
            else writeLoop next (left + 1 - n) s
        | .wantWrite cipher next =>
            let (sc, s) := tlsSendCipher env cbClose cbError cipher s
            if sc < 0 then (Err.write, s)
            else if sc > 0 then (Err.inval, s)
            else writeLoop next (left + 1) s
        | .wantRead ok _ _ => if ok then (0, { s with pending := left + 1 }) else (Err.nomem, s)
        | .failed => (Err.write, tlsFail env Err.write s)

def write (data : Bytes) (s : Session) : Int × Session :=
  if s.conn.destroyed || !s.conn.established || !s.conn.handshakeDone || !s.conn.ssl then (Err.inval, s)
  else if s.pending ≠ 0 then (Err.inval, s)
  else writeLoop env cbClose cbError (env.write s.log data.length) data.length s

def call (a : Api) (s : Session) : Session :=
  match a with
  | .write data =>
      let (rc, s) := write env cbClose cbError data s
      s.note (.returned rc)
  | a => callEnded a s

def calls (script : List Api) (s : Session) : Session :=
  script.foldl (fun s a => call env cbClose cbError a s) s

def readChunks : List (Bytes × List WriteRes) → Session → Bool × Session
  | [], s => (true, s)
  | (data, cipher) :: rest, s =>
      if s.conn.destroyed || !s.conn.ssl then (false, s)
      else
        let (sc, s) := tlsSendCipher env cbClose cbError cipher s
        if sc < 0 then (false, s)
        else
          let s := s.note (.onData s.userData data)
          readChunks rest (calls env cbClose cbError (env.onData s.log) s)

def tlsReadPlain (r : SslRead) (s : Session) : Session :=
  let (more, s) := readChunks env cbClose cbError r.chunks s
  if !more || s.conn.destroyed || !s.conn.ssl then s
  else
    let (sc, s) := tlsSendCipher env cbClose cbError r.cipher s
    if sc < 0 then s
    else
      match r.last with
      | .eof => tlsNotifyClose env s
      | .want => s
      | .failed => tlsFail env Err.read s

def tcpCbClose (s : Session) : Session :=
  if s.conn.destroyed then s
  else if !s.conn.handshakeDone then tlsFail env Err.connect s
  else tlsReadPlain env cbClose cbError (env.readClosed s.log) s

-- true = the loop is left.
def pumpRetries : List (List WriteRes) → Session → Bool × Session
  | [], s => (false, s)
  | cipher :: rest, s =>
      if s.conn.destroyed || !s.conn.ssl then (true, s)
      else
        let (sc, s) := tlsSendCipher env cbClose cbError cipher s
        if sc < 0 then (true, s) else pumpRetries rest s

def tlsPumpHandshake (s : Session) : Session :=
  let r := env.handshake s.log
  let (stop, s) := pumpRetries env cbClose cbError r.retries s
  if stop || s.conn.destroyed || !s.conn.ssl then s
  else
    let (sc, s) := tlsSendCipher env cbClose cbError r.cipher s
    if sc < 0 then s
    else
      match r.last with
      | .done =>
          let s := { s with conn := { s.conn with handshakeDone := true } }.note (.onOpen s.userData)
          let s := calls env cbClose cbError (env.onOpen s.log) s
          tlsReadPlain env cbClose cbError (env.read s.log) s
      | .wantRead => s
      | .failed => tlsFail env Err.handshake s

def tlsStartHandshake (s : Session) : Session :=
  if s.conn.destroyed then s
  else
    let s := { s with conn := s.conn.emit (.sslNew s.conn.isServer s.conn.hostname) }
    if env.sslNew s.log then
      tlsPumpHandshake env cbClose cbError { s with conn := { s.conn with ssl := true } }
    else tlsFail env Err.handshake s

def flushLoop : SslWrite → Nat → Session → Session
  | _, 0, s => s
  | turn, left + 1, s =>
      if s.conn.destroyed || !s.conn.ssl then s
      else
        match turn with
        | .wrote n cipher next =>
            let (sc, s) := tlsSendCipher env cbClose cbError cipher s
            if sc ≠ 0 then s else flushLoop next (left + 1 - n) s
        | .wantWrite cipher next =>
            let (sc, s) := tlsSendCipher env cbClose cbError cipher s
            if sc ≠ 0 then s else flushLoop next (left + 1) s
        | .wantRead _ cipher next =>
            let (sc, s) := tlsSendCipher env cbClose cbError cipher s
            if sc ≠ 0 then s else flushLoop next (left + 1) s
        | .failed => tlsFail env Err.write s

def tlsFlushPending (s : Session) : Session :=
  if s.pending = 0 || s.conn.destroyed then s
  else { flushLoop env cbClose cbError (env.write s.log s.pending) s.pending s with pending := 0 }

def tcpCbData (data : Bytes) (s : Session) : Session :=
  if s.conn.destroyed || !s.conn.ssl then s
  else if !env.feed s.log data then tlsFail env Err.read s
  else if !s.conn.handshakeDone then tlsPumpHandshake env cbClose cbError s
  else tlsFlushPending env cbClose cbError (tlsReadPlain env cbClose cbError (env.read s.log) s)

end

end Session

-- A call of the user, or an event of the TCP object.
inductive SessionInput where
  | tcpOpened
  | tcpData (data : Bytes)
  | tcpClosed
  | tcpFailed
  | call (a : Api)
  deriving DecidableEq, Repr

namespace Session

variable (env : Env)

-- The TCP object is IDLE in its callback, and a write on it is refused: nothing is called back.
def closedByTcp (s : Session) : Session := tcpCbClose env id id s

-- What the user and the engine do while the TCP object is open.
def step (s : Session) : SessionInput → Session
  | .tcpOpened =>
      if s.conn.tcp = .opening then
        tlsStartHandshake env (closedByTcp env) (tcpCbError env) (s.setTcp .opened)
      else s
  | .tcpData data =>
      if s.conn.tcp = .opened then tcpCbData env (closedByTcp env) (tcpCbError env) data s else s
  | .tcpClosed => if s.conn.tcp ≠ .idle then closedByTcp env (s.setTcp .idle) else s
  | .tcpFailed => if s.conn.tcp ≠ .idle then tcpCbError env (s.setTcp .idle) else s
  | .call a => call env (closedByTcp env) (tcpCbError env) a s

def run (s : Session) (inputs : List SessionInput) : Session := inputs.foldl (step env) s

end Session

end Sevent.Tls
