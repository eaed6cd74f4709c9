import Sevent.Ws.Receive

-- From the handshake to the end of a connection: the stream callbacks, the entry points and runs.
namespace Sevent.Ws

variable {σ δ : Type}

def maxRedirects : Nat := 5

def extensionsOkLoop : Nat → Bytes → Bool
  | 0, _ => true
  | fuel + 1, p =>
      let p := p.dropWhile Http.isBlank
      if p = [] then true
      else
        let tok := Http.rtrim (p.takeWhile fun b => b != 59 && b != 44)
        if tok ≠ pmd then false
        else
          match Http.memchr 44 p with
          | none => true
          | some comma => extensionsOkLoop fuel (p.drop (comma + 1))

def extensionsOk (extensions : Bytes) (offeredDeflate : Bool) : Bool :=
  if extensions = [] then true
  else if !offeredDeflate then false
  else extensionsOkLoop extensions.length extensions

-- What follows the first occurrence of the needle (strstr).
def strstrAfter (needle : Bytes) : Bytes → Option Bytes
  | [] => if needle = [] then some [] else none
  | b :: rest =>
      if needle.isPrefixOf (b :: rest) then some ((b :: rest).drop needle.length)
      else strstrAfter needle rest

def isSpace (b : Byte) : Bool := b == 32 || (9 ≤ b && b ≤ 13)

-- strtol in base 10; `none` when there is nothing to convert.
def strtol (s : Bytes) : Option Int :=
  let s := s.dropWhile isSpace
  let (neg, s) :=
    match s with
    | 45 :: rest => (true, rest)
    | 43 :: rest => (false, rest)
    | _ => (false, s)
  let digits := s.takeWhile Http.isDigit
  if digits = [] then none
  else some (if neg then -(Http.decimalValue digits : Int) else Http.decimalValue digits)

-- A `name=N` parameter of the response. Outer none = the server breaks the agreement.
def windowBits (name extensions : Bytes) (requested : Nat) : Option Nat :=
  match strstrAfter name extensions with
  | none => some 0
  | some (61 :: value) =>
      match strtol value with
      | none => none
      | some v =>
          if v < 8 ∨ v > 15 ∨ (requested ≠ 0 ∧ v > requested) then none else some v.toNat
  | some _ => some 0

def legalBits (n : Nat) : Nat := if 8 ≤ n ∧ n ≤ 15 then n else 0

def redirectPort (p : Bytes) : Option (Nat × Bytes) :=
  match p with
  | 58 :: rest =>
      let digits := rest.takeWhile Http.isDigit
      let port := Http.decimalValue digits
      if port > 65535 ∨ port = 0 then none else some (port, rest.drop digits.length)
  | _ => some (80, p)

-- New host, port and path; `none` for the host and port of a relative location.
def redirectParse (loc : Bytes) : Option (Option (Bytes × Nat) × Bytes) :=
  if loc.head? = some 47 then some (none, loc.take 255)
  else if !(ascii "ws://").isPrefixOf loc then none
  else
    let loc := loc.drop 5
    let host := loc.takeWhile fun b => b != 58 && b != 47
    if host = [] ∨ host.length ≥ 256 then none
    else
      match redirectPort (loc.drop host.length) with
      | none => none
      | some (port, p) =>
          some (some (host, port), if p.head? = some 47 then p.take 255 else ascii "/")

namespace Conn

variable (env : Env σ δ)

def registerPing (c : Conn σ δ) : Conn σ δ :=
  if env.pingIntervalMs > 0 ∧ !c.pingTimer then
    let ok := env.timer c.log
    { c with pingTimer := ok, log := c.log ++ [.timerRegister env.pingIntervalMs.toNat ok] }
  else c

-- OPEN with the handshake of `skip` bytes behind it: on_open, heartbeat, frames that came along.
def openUp (skip : Nat) (c : Conn σ δ) : Conn σ δ :=
  let c := { c with recv := c.recv.drop skip }.setState .opened
  let c := (callback env env.onOpen .onOpen c).emit .openReturned
  if c.destroyed then c
  else
    let c := c.registerPing env
    if c.recv = [] then c
    else
      let (err, c) := runFrames env c
      if err > 0 then fatal env (notify env) err c else c

def serverHandshakeFail (status : Nat) (c : Conn σ δ) : Conn σ δ :=
  let text := if status = 426 then some (ascii "Upgrade Required") else none
  let extra :=
    if status = 426 then ascii "Connection: close\r\nSec-WebSocket-Version: 13\r\n"
    else ascii "Connection: close\r\n"
  let c :=
    match buildHttpResponse 256 status text extra with
    | none => c
    | some resp => (streamWrite env (notify env) (.refusalOut resp) c).2
  let c := (c.emit .streamShutdown).setState .closing
  callback env env.onError (.onError Err.wsHandshake) c

-- ws_deflate_create, its result stored only on success.
def createDeflate (p : DeflateParams) (c : Conn σ δ) : Bool × Conn σ δ :=
  let (ok, c) := c.alloc env
  match deflateCreate env.zlib ok p with
  | none => (false, c)
  | some df => (true, { c with deflate := some df })

def serverEstablish (key : Bytes) (skip : Nat) (deflateOffered clientNct : Bool) (c : Conn σ δ) :
    Conn σ δ :=
  let (confirm, c) :=
    if env.enableDeflate && deflateOffered then
      createDeflate env
        { DeflateParams.zero with
          clientNoContextTakeover := clientNct, compressionLevel := env.deflateLevel } c
    else (false, c)
  match buildResponse 512 key confirm with
  | none => fatal env (notify env) Err.nomem c
  | some resp =>
      let (rc, c) := streamWrite env (notify env) (.upgradeOut resp) c
      if rc ≠ 0 then fatal env (notify env) Err.wsWrite c else openUp env skip c

def handshakeDataServer (c : Conn σ δ) : Conn σ δ :=
  let (ret, req) := parseRequest c.recv
  if ret = 0 then c
  else if ret < 0 ∨ req.status ≠ 0 then
    serverHandshakeFail env (if ret > 0 ∧ req.status = 426 then 426 else 400) c
  else serverEstablish env req.key ret.toNat req.deflateOffered req.clientNoContextTakeover c

def redirectReconnect (c : Conn σ δ) : Bool × Conn σ δ :=
  let c := c.closeSocket
  let c :=
    { c with
      recv := [], frag := [], streamRemaining := 0, streamFin := false
      msg := { c.msg with mode := .none, compressed := false, total := 0, finSent := false } }
  let c := c.setState .connecting
  let ok := env.streamOpen c.log
  (ok, { c with
    stream := if ok then .opening else .idle
    log := c.log ++ [.streamOpen c.host c.port ok] })

def redirect (location : Bytes) (c : Conn σ δ) : Conn σ δ :=
  if c.redirectCount ≥ maxRedirects then fatal env (notify env) Err.wsHandshake c
  else
    match redirectParse location with
    | none => fatal env (notify env) Err.wsHandshake c
    | some (target, path) =>
        let c :=
          { c with
            path := path, redirectCount := c.redirectCount + 1
            host := (target.map Prod.fst).getD c.host, port := (target.map Prod.snd).getD c.port }
        let (ok, c) := redirectReconnect env c
        if ok then c else fatal env (notify env) Err.wsConnect c

-- permessage-deflate as the response confirms it; false = the connection has failed.
def negotiate (extensions : Bytes) (c : Conn σ δ) : Bool × Conn σ δ :=
  if env.enableDeflate && (strstrAfter pmd extensions).isSome then
    match windowBits clientMaxWb extensions env.requestClientMaxWindowBits with
    | none => (false, fatal env (notify env) Err.wsProtocol c)
    | some cbits =>
        match windowBits serverMaxWb extensions env.requestServerMaxWindowBits with
        | none => (false, fatal env (notify env) Err.wsProtocol c)
        | some sbits =>
            let p : DeflateParams :=
              { serverNoContextTakeover := (strstrAfter serverNoCtx extensions).isSome
                clientNoContextTakeover := env.requestClientNoContextTakeover
                serverMaxWindowBits := sbits
                clientMaxWindowBits :=
                  if cbits = 0 then legalBits env.requestClientMaxWindowBits else cbits
                compressionLevel := env.deflateLevel }
            (true, (createDeflate env p c).2)
  else (true, c)

def clientEstablish (ret : Nat) (resp : HandshakeResponse) (c : Conn σ δ) : Conn σ δ :=
  if !extensionsOk resp.extensions env.enableDeflate then fatal env (notify env) Err.wsHandshake c
  else
    let (ok, c) := negotiate env resp.extensions c
    if !ok then c else openUp env ret c

def handshakeDataClient (c : Conn σ δ) : Conn σ δ :=
  let (ret, resp) := parseResponse c.recv
  if ret = 0 then c
  else if ret < 0 then
    let c := callback env env.onHttpResponse (.onHttpResponse resp.statusCode c.recv []) c
    fatal env (notify env) Err.wsHandshake c
  else
    let c := c.emit (.response c.recv)
    if resp.redirects then redirect env resp.location c
    else if env.onHttpResponse.isSome then
      if resp.statusCode ≠ 101 ∨ !verifyAccept c.secWsKey resp.accept then
        let c := callback env env.onHttpResponse
          (.onHttpResponse resp.statusCode (c.recv.take ret.toNat) (c.recv.drop ret.toNat)) c
        if c.destroyed then c else enterClosed (notify env) 0 [] c
      else clientEstablish env ret.toNat resp c
    else if !verifyAccept c.secWsKey resp.accept then fatal env (notify env) Err.wsHandshake c
    else clientEstablish env ret.toNat resp c

def handshakeData (c : Conn σ δ) : Conn σ δ :=
  if env.isClient then handshakeDataClient env c else handshakeDataServer env c

def offer : DeflateParams :=
  { clientNoContextTakeover := env.requestClientNoContextTakeover
    serverNoContextTakeover := env.requestServerNoContextTakeover
    clientMaxWindowBits := legalBits env.requestClientMaxWindowBits
    serverMaxWindowBits := legalBits env.requestServerMaxWindowBits
    compressionLevel := 0 }

def onStreamOpen (c : Conn σ δ) : Conn σ δ :=
  if !env.isClient then c.setState .handshake
  else
    let key := genKey (env.random c.log)
    let c := { c with secWsKey := key }
    match buildRequest 1024 c.host c.port c.path key env.subProtocol
        (if env.enableDeflate then some (offer env) else none) with
    | none => fatal env (notify env) Err.nomem c
    | some req =>
        let c := c.setState .handshake
        let (rc, c) := streamWrite env (notify env) (.requestOut key req) c
        if rc ≠ 0 then fatal env (notify env) Err.wsConnect c else c

def onData (data : Bytes) (c : Conn σ δ) : Conn σ δ :=
  if c.gone then c
  else if c.recv.length + data.length > env.recvCap then fatal env (notify env) Err.wsProtocol c
  else
    let c := { c with recv := c.recv ++ data }
    if c.state = .handshake then handshakeData env c else frameData env c

def onPingTimer (c : Conn σ δ) : Conn σ δ :=
  if c.destroyed ∨ c.state ≠ .opened then c
  else (sendFrame env (notify env) Opcode.ping (.null 0) c).2

-- A connection whose stream has been asked to open: sevent_ws_connect and sevent_ws_accept.
def start (host : Bytes) (port : Nat) (path : Bytes) (seed : UInt32) : Conn σ δ :=
  { state := .connecting, destroyed := false, stream := .opening, host := host, port := port
    path := path, redirectCount := 0, pingTimer := false, deflate := none, secWsKey := []
    recv := [], msg := ⟨.none, 0, false, 0, false⟩, streamRemaining := 0, streamFin := false
    streamMask := false, streamMaskKey := ⟨0, 0, 0, 0⟩, streamMaskOff := 0, frag := []
    maskSeed := seed, log := [] }

-- sevent_ws_upgrade: an open stream and the bytes the HTTP connection has read.
def upgrade (recv : Bytes) (seed : UInt32) : Conn σ δ :=
  handshakeDataServer env { start [] 0 [] seed with stream := .opened, recv := recv }

end Conn

inductive Input where
  | streamOpened
  | data (d : Bytes)
  | streamClosed
  | streamFailed (err : Int)
  | pingTick
  | call (a : Api)
  deriving DecidableEq, Repr

namespace Conn

variable (env : Env σ δ)

def step (c : Conn σ δ) : Input → Conn σ δ
  | .streamOpened => if c.stream = .opening then onStreamOpen env { c with stream := .opened } else c
  | .data d => if c.stream = .opened then onData env d c else c
  | .streamClosed =>
      if c.stream ≠ .idle then onStreamClose (notify env) { c with stream := .idle } else c
  | .streamFailed err =>
      if c.stream ≠ .idle then onStreamError (notify env) err { c with stream := .idle } else c
  | .pingTick => if c.pingTimer then onPingTimer env c else c
  | .call a => call env (notify env) a c

def run (c : Conn σ δ) (inputs : List Input) : Conn σ δ := inputs.foldl (step env) c

end Conn

end Sevent.Ws
