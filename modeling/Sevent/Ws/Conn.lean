import Sevent.Stream
import Sevent.Ws.Frame
import Sevent.Ws.Utf8
import Sevent.Ws.Deflate

-- A WebSocket connection (ws_conn.c): its state, the frames it sends and the calls of its user.
-- What callbacks, allocator, timers and the stream do is a function of the log so far.
namespace Sevent.Ws

open Sevent.Stream (WriteRes)

inductive State where
  | connecting | handshake | opened | closing | closed
  deriving DecidableEq, Repr

-- The stream object below; callbacks come only from one that is not idle.
inductive StreamState where
  | idle | opening | opened
  deriving DecidableEq, Repr

inductive MsgMode where
  | none | frag | stream
  deriving DecidableEq, Repr

structure MsgState where
  mode : MsgMode
  opcode : Nat
  compressed : Bool
  total : Nat
  finSent : Bool
  deriving DecidableEq, Repr

-- The places that call on_message.
inductive Site where
  | frame | fragAppend | fragFlush | fragFlushTail | streamConsume | msgEnd
  | inflateChunk | inflateEnd | inflateOneshot
  deriving DecidableEq, Repr

inductive Event where
  | state (s : State)
  | onOpen
  -- on_open has returned, if there is one
  | openReturned
  | onMessage (site : Site) (data : Bytes) (isBin fin : Bool) (total : Nat)
  -- the callback has returned
  | messageReturned (site : Site) (fin : Bool)
  -- on_message is NULL and is called all the same
  | nullMessage
  | onPong (data : Bytes)
  | onClose (code : Nat) (reason : Bytes)
  | onError (err : Int)
  | onHttpResponse (status : Nat) (headers body : Bytes)
  | frameOut (opcode : Nat) (data : Bytes) (res : WriteRes)
  -- the upgrade request with its key, the 101 and the refusals
  | requestOut (key data : Bytes) (res : WriteRes)
  | upgradeOut (data : Bytes) (res : WriteRes)
  | refusalOut (data : Bytes) (res : WriteRes)
  -- the head of the response that the client has just parsed
  | response (buf : Bytes)
  -- ws_frame_data is entered
  | frameData
  -- a data frame of a message, compressed or not, is taken up
  | dataFrame (opcode len : Nat) (fin compressed : Bool)
  -- a large frame takes the streaming route: the mode and the bytes in frag_buf before it
  | streamFrame (mode : MsgMode) (fragLen : Nat)
  -- frag_flush is entered
  | fragFlush (compressed fin : Bool) (fragLen : Nat)
  -- ws_send_close_code is entered
  | closeCode (code : Nat) (s : State)
  | closeCall
  | destroyCall
  | returned (rc : Int)
  | alloc (ok : Bool)
  | timerRegister (ms : Nat) (ok : Bool)
  | timerUnregister
  | streamOpen (host : Bytes) (port : Nat) (ok : Bool)
  | streamClose
  | streamShutdown
  deriving DecidableEq, Repr

-- A caller's buffer: NULL with a length, or bytes.
inductive Arg where
  | null (len : Nat)
  | bytes (b : Bytes)
  deriving DecidableEq, Repr

def Arg.len : Arg → Nat
  | .null n => n
  | .bytes b => b.length

def Arg.toOption : Arg → Option Bytes
  | .null _ => none
  | .bytes b => some b

inductive Api where
  | sendText (data : Arg)
  | sendBinary (data : Arg)
  | ping (payload : Arg)
  | shutdown (code : Nat) (reason : Option Bytes)
  | close
  | destroy
  deriving DecidableEq, Repr

abbrev Callback := Option (List Event → List Api)

variable {σ δ : Type}

structure Env (σ δ : Type) where
  isClient : Bool
  recvCap : Nat
  subProtocol : Bytes
  pingIntervalMs : Int
  enableDeflate : Bool
  deflateLevel : Nat
  requestClientNoContextTakeover : Bool
  requestServerNoContextTakeover : Bool
  requestClientMaxWindowBits : Nat
  requestServerMaxWindowBits : Nat
  onOpen : Callback
  onMessage : Callback
  onPong : Callback
  onClose : Callback
  onError : Callback
  onHttpResponse : Callback
  zlib : Zlib σ δ
  write : List Event → WriteRes
  alloc : List Event → Bool
  timer : List Event → Bool
  streamOpen : List Event → Bool
  -- 16 random bytes
  random : List Event → Fin 16 → Byte
  -- what fresh memory holds at an offset
  uninit : List Event → Nat → Byte

structure Conn (σ δ : Type) where
  state : State
  destroyed : Bool
  stream : StreamState
  host : Bytes
  port : Nat
  path : Bytes
  redirectCount : Nat
  pingTimer : Bool
  deflate : Option (Deflate σ δ)
  secWsKey : Bytes
  -- recv_buf from recv_pos to recv_len
  recv : Bytes
  msg : MsgState
  streamRemaining : Nat
  streamFin : Bool
  streamMask : Bool
  streamMaskKey : MaskKey
  streamMaskOff : Nat
  -- frag_buf up to frag_len
  frag : Bytes
  maskSeed : UInt32
  log : List Event

inductive Notice where
  | close (code : Nat) (reason : Bytes)
  | error (err : Int)
  deriving DecidableEq, Repr

def Notice.event : Notice → Event
  | .close code reason => .onClose code reason
  | .error err => .onError err

def closeCodeValid (code : Nat) : Bool :=
  !(code < 1000 || code == 1004 || code == 1005 || code == 1006 || code == 1015 ||
    (1016 ≤ code && code ≤ 2999) || code > 4999)

def xorshift32 (x : UInt32) : UInt32 :=
  let x := x ^^^ (x <<< 13)
  let x := x ^^^ (x >>> 17)
  x ^^^ (x <<< 5)

def maskKeyOf (r : UInt32) : MaskKey :=
  ⟨(r >>> 24).toUInt8, (r >>> 16).toUInt8, (r >>> 8).toUInt8, r.toUInt8⟩

def beCode (code : Nat) : Bytes := [UInt8.ofNat (code / 256), UInt8.ofNat code]

namespace Conn

def emit (c : Conn σ δ) (e : Event) : Conn σ δ := { c with log := c.log ++ [e] }

def setState (c : Conn σ δ) (s : State) : Conn σ δ :=
  { c with state := s, log := c.log ++ [.state s] }

-- CLOSED, or told to stop by its user.
def gone (c : Conn σ δ) : Bool := c.destroyed || c.state == .closed

def timerStop (c : Conn σ δ) : Conn σ δ :=
  if c.pingTimer then { c with pingTimer := false, log := c.log ++ [.timerUnregister] } else c

def closeSocket (c : Conn σ δ) : Conn σ δ :=
  { c with stream := .idle, log := c.log ++ [.streamClose] }

section

variable (env : Env σ δ) (notify : Notice → Conn σ δ → Conn σ δ)

def alloc (c : Conn σ δ) : Bool × Conn σ δ := (env.alloc c.log, c.emit (.alloc (env.alloc c.log)))

def enterClosed (code : Nat) (reason : Bytes) (c : Conn σ δ) : Conn σ δ :=
  if c.gone then c else notify (.close code reason) ((c.setState .closed).timerStop.closeSocket)

-- The end of ws_fatal, and all of it for the errors that send no CLOSE frame.
def fatalEnd (err : Int) (c : Conn σ δ) : Conn σ δ :=
  notify (.error err) ((c.setState .closed).timerStop.closeSocket)

def onStreamClose (c : Conn σ δ) : Conn σ δ :=
  if c.gone then c
  else if c.state = .handshake then fatalEnd notify Err.wsHandshake c
  else enterClosed notify 1006 (ascii "connection closed") c

def onStreamError (err : Int) (c : Conn σ δ) : Conn σ δ :=
  if c.gone then c
  else if err = Err.handshake then fatalEnd notify Err.wsHandshake c
  else if err = Err.connect then fatalEnd notify Err.wsConnect c
  else enterClosed notify 1006 (ascii "read error") c

-- A write on a stream that is not open is refused.
def streamWrite (ev : WriteRes → Event) (c : Conn σ δ) : Int × Conn σ δ :=
  if c.stream ≠ .opened then (Err.inval, c)
  else
    let res := env.write c.log
    let c := c.emit (ev res)
    match res with
    | .failed err => (res.ret, onStreamError notify err { c with stream := .idle })
    | .torn _ => (res.ret, onStreamClose notify { c with stream := .idle })
    | _ => (res.ret, c)

def sendFrameRaw (opcode : Nat) (payload : Arg) (rsv1 : Bool) (c : Conn σ δ) : Int × Conn σ δ :=
  let isCtrl := opcode == Opcode.ping || opcode == Opcode.pong || opcode == Opcode.close
  if c.state = .closing ∧ !isCtrl then (Err.inval, c)
  else if c.state ≠ .opened ∧ c.state ≠ .closing then (Err.inval, c)
  else
    let seed := xorshift32 c.maskSeed
    let c := if env.isClient then { c with maskSeed := seed } else c
    let key := if env.isClient then some (maskKeyOf seed) else none
    match buildHeader true rsv1 opcode key payload.len with
    | none => (Err.inval, c)
    | some hdr =>
        let (ok, c) := c.alloc env
        if !ok then (Err.nomem, c)
        else
          let body :=
            match payload with
            | .bytes b => if env.isClient then applyMask (maskKeyOf seed) b else b
            | .null n => (List.range n).map (env.uninit c.log)
          if isCtrl ∧ payload.len > 125 then (Err.inval, c)
          else if opcode = Opcode.close ∧ payload.len ≥ 2 ∧
              !closeCodeValid (bigEndian ((payload.toOption.getD []).take 2)) then (Err.inval, c)
          else
            let (rc, c) := streamWrite env notify (.frameOut opcode (hdr ++ body)) c
            if rc = Err.success then (Err.success, c)
            else if rc = Err.nomem then (Err.nomem, c)
            else (Err.wsWrite, c)

def sendFrame (opcode : Nat) (payload : Arg) (c : Conn σ δ) : Int × Conn σ δ :=
  sendFrameRaw env notify opcode payload false c

def sendMessage (opcode : Nat) (payload : Arg) (c : Conn σ δ) : Int × Conn σ δ :=
  match c.deflate with
  | none => sendFrame env notify opcode payload c
  | some df =>
      if env.deflateLevel = levelNone ∨ ¬ (opcode = Opcode.text ∨ opcode = Opcode.binary) then
        sendFrame env notify opcode payload c
      else
        let cap := compressMaxlen env.zlib df payload.len
        let (ok, c) := c.alloc env
        if !ok then (Err.nomem, c)
        else
          let (comp, df) := compress env.zlib df payload.toOption cap
          let c := { c with deflate := some df }
          match comp with
          | none => (Err.wsProtocol, c)
          | some comp => sendFrameRaw env notify opcode (.bytes comp) true c

def fatal (err : Int) (c : Conn σ δ) : Conn σ δ :=
  if c.gone then c
  else
    let c :=
      if err = Err.wsProtocol ∧ c.state = .opened then
        (sendFrame env notify Opcode.close (.bytes (beCode 1002)) (c.setState .closing)).2
      else c
    fatalEnd notify err c

def sendCloseCode (code : Nat) (c : Conn σ δ) : Conn σ δ :=
  let c := c.emit (.closeCode code c.state)
  enterClosed notify code [] (sendFrame env notify Opcode.close (.bytes (beCode code)) c).2

-- ---- the calls of the user ----

-- A write error that was not reported by the stream is fatal.
def failWrite (r : Int × Conn σ δ) : Int × Conn σ δ :=
  if r.1 = Err.wsWrite then (r.1, fatal env notify Err.wsWrite r.2) else r

def sendText (data : Arg) (c : Conn σ δ) : Int × Conn σ δ :=
  match data with
  | .null (_ + 1) => (Err.inval, c)
  | .null 0 => failWrite env notify (sendMessage env notify Opcode.text data c)
  | .bytes b =>
      if b ≠ [] ∧ !utf8Validate b then (Err.inval, c)
      else failWrite env notify (sendMessage env notify Opcode.text data c)

def sendBinary (data : Arg) (c : Conn σ δ) : Int × Conn σ δ :=
  match data with
  | .null (_ + 1) => (Err.inval, c)
  | _ => failWrite env notify (sendMessage env notify Opcode.binary data c)

def ping (payload : Arg) (c : Conn σ δ) : Int × Conn σ δ :=
  if payload.len > 125 then (Err.inval, c)
  else failWrite env notify (sendFrame env notify Opcode.ping payload c)

def shutdown (code : Nat) (reason : Option Bytes) (c : Conn σ δ) : Int × Conn σ δ :=
  if c.state ≠ .opened then (Err.inval, c)
  else
    let cp := beCode code ++ (cString (reason.getD [])).take 123
    let (ret, c) := sendFrame env notify Opcode.close (.bytes cp) c
    let c := if ret = Err.success ∧ !c.gone then c.setState .closing else c
    failWrite env notify (ret, c)

def close (c : Conn σ δ) : Conn σ δ :=
  (({ (c.emit .closeCall) with destroyed := true }.setState .closed).closeSocket).timerStop

def destroy (c : Conn σ δ) : Conn σ δ := (c.close).emit .destroyCall

def call (a : Api) (c : Conn σ δ) : Conn σ δ :=
  let (rc, c) :=
    match a with
    | .sendText data => sendText env notify data c
    | .sendBinary data => sendBinary env notify data c
    | .ping payload => ping env notify payload c
    | .shutdown code reason => shutdown env notify code reason c
    | .close => (Err.success, c.close)
    | .destroy => (Err.success, c.destroy)
  c.emit (.returned rc)

def calls (script : List Api) (c : Conn σ δ) : Conn σ δ :=
  script.foldl (fun c a => call env notify a c) c

end

-- ---- callbacks ----

variable (env : Env σ δ)

def noticeCallback : Notice → Callback
  | .close _ _ => env.onClose
  | .error _ => env.onError

-- Inside a notification the connection is CLOSED: no call on it writes or notifies again.
def notifyNested (n : Notice) (c : Conn σ δ) : Conn σ δ :=
  match noticeCallback env n with
  | none => c
  | some _ => c.emit n.event

def notify (n : Notice) (c : Conn σ δ) : Conn σ δ :=
  match noticeCallback env n with
  | none => c
  | some cb =>
      let c := c.emit n.event
      calls env (notifyNested env) (cb c.log) c

-- A callback of any other kind.
def callback (cb : Callback) (e : Event) (c : Conn σ δ) : Conn σ δ :=
  match cb with
  | none => c
  | some cb =>
      let c := c.emit e
      calls env (notify env) (cb c.log) c

-- The on_message pointer is called without a check here.
def message (site : Site) (data : Bytes) (isBin fin : Bool) (total : Nat) (c : Conn σ δ) :
    Conn σ δ :=
  match env.onMessage with
  | none => c.emit .nullMessage
  | some _ =>
      (callback env env.onMessage (.onMessage site data isBin fin total) c).emit
        (.messageReturned site fin)

end Conn

end Sevent.Ws
