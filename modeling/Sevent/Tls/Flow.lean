import Sevent.Stream
import Sevent.While
import Sevent.Tls.Channel

-- The bytes of one round of a TLS connection (tls_conn.c): the ciphertext that the engine makes goes
-- to the TCP object, the plaintext that it cannot take is parked, and what the peer sends is fed
-- and read. A loop that has not come to its end within its fuel has no result.
namespace Sevent.Tls

open Sevent.Stream (WriteRes)

-- Beside the engine: the TCP object, the allocator, and what the callbacks of the user write.
structure Outside (κ : Type) where
  tcpWrite : κ → Bytes → WriteRes × κ
  malloc : κ → Bool
  onOpen : κ → List Bytes × κ
  onData : κ → Bytes → List Bytes × κ

def sendCap : Nat := 16 * 1024

structure Flow (ε κ : Type) where
  -- NULL when the round is over, in a destroyed object too
  ssl : Bool
  handshakeDone : Bool
  recvCap : Nat
  channel : Channel
  -- pending_buf as far as pending_len
  pending : Bytes
  pendingCap : Nat
  engine : ε
  outside : κ
  -- the plaintext that sevent_ssl_write has taken
  taken : Bytes
  -- sevent_tcp_conn_write has answered that the TCP connection is over
  tcpOver : Bool
  -- what tls_fail has been called with
  errors : List Int

namespace Flow

variable {ε κ : Type}

-- tls_reset_after_term; what the user calls in on_close and on_error belongs to other rounds.
def reset (w : Flow ε κ) : Flow ε κ :=
  { w with ssl := false, handshakeDone := false, pending := [], pendingCap := 0 }

def tlsFail (err : Int) (w : Flow ε κ) : Flow ε κ := { w.reset with errors := w.errors ++ [err] }

def tcpCbError (w : Flow ε κ) : Flow ε κ := w.tlsFail (if w.handshakeDone then Err.read else Err.connect)

section

variable (E : Engine ε) (O : Outside κ)

-- Each turn drains. `none` = until there was nothing more.
def sendCipherLoop : Nat → κ → Bytes → Option WriteRes × κ × Bytes
  | 0, k, out => (none, k, out)
  | fuel + 1, k, out =>
      if out = [] then (none, k, out)
      else
        let r := O.tcpWrite k (out.take sendCap)
        if r.1 = .ok then sendCipherLoop fuel r.2 (out.drop sendCap)
        else (some r.1, r.2, out.drop sendCap)

def tlsSendCipher (w : Flow ε κ) : Int × Flow ε κ :=
  if !w.ssl then (1, w)
  else
    let r := sendCipherLoop O w.channel.out.length w.outside w.channel.out
    let w := { w with outside := r.2.1, channel := { w.channel with out := r.2.2 } }
    match r.1 with
    | none => (0, w)
    | some .inval => (1, { w with tcpOver := true })
    -- the round has ended inside the write, and the next drain finds no engine
    | some (.torn _) => (-1, w.reset)
    | some (.failed _) => (-1, w.tcpCbError.tlsFail Err.write)
    | some _ => (-1, w.tlsFail Err.write)

def tlsParkWrite (data : Bytes) (w : Flow ε κ) : Bool × Flow ε κ :=
  if w.pendingCap < data.length then
    if O.malloc w.outside then (true, { w with pending := data, pendingCap := data.length })
    else (false, w)
  else (true, { w with pending := data })

def sslWrite (data : Bytes) (w : Flow ε κ) : WriteRc × Flow ε κ :=
  let r := (E.write w.engine data).run w.channel
  (r.1.1, { w with engine := r.1.2, channel := r.2 })

def take (n : Nat) (data : Bytes) (w : Flow ε κ) : Flow ε κ := { w with taken := w.taken ++ data.take n }

-- A turn of the loop in sevent_tls_conn_write, with what is left of the data.
def writeTurn (s : Flow ε κ × Bytes) : (Int × Flow ε κ) ⊕ (Flow ε κ × Bytes) :=
  if s.2 = [] then .inl (0, s.1)
  else if !s.1.ssl then .inl (Err.inval, s.1)
  else
    let r := s.1.sslWrite E s.2
    match r.1 with
    | .took n =>
        let c := (r.2.take n s.2).tlsSendCipher O
        if c.1 < 0 then .inl (Err.write, c.2)
        else if 0 < c.1 then .inl (Err.inval, c.2)
        else .inr (c.2, s.2.drop n)
    | .wantRead =>
        let p := r.2.tlsParkWrite O s.2
        .inl (if p.1 then 0 else Err.nomem, p.2)
    | .wantWrite =>
        let c := r.2.tlsSendCipher O
        if c.1 < 0 then .inl (Err.write, c.2)
        else if 0 < c.1 then .inl (Err.inval, c.2)
        else .inr (c.2, s.2)
    | .failed => .inl (Err.write, r.2.tlsFail Err.write)

def write (fuel : Nat) (data : Bytes) (w : Flow ε κ) : Option (Int × Flow ε κ) :=
  if !w.ssl || !w.handshakeDone then some (Err.inval, w)
  else if w.pending ≠ [] then some (Err.inval, w)
  else While.run (writeTurn E O) fuel (w, data)

-- A turn of the loop in tls_flush_pending. That the engine has taken nothing has two reasons.
def flushTurn (s : Flow ε κ × Bytes) : Flow ε κ ⊕ (Flow ε κ × Bytes) :=
  if s.2 = [] then .inl s.1
  else if !s.1.ssl then .inl s.1
  else
    let r := s.1.sslWrite E s.2
    match r.1 with
    | .took n =>
        let c := (r.2.take n s.2).tlsSendCipher O
        if c.1 ≠ 0 then .inl c.2 else .inr (c.2, s.2.drop n)
    | .wantRead | .wantWrite =>
        let c := r.2.tlsSendCipher O
        if c.1 ≠ 0 then .inl c.2 else .inr (c.2, s.2)
    | .failed => .inl (r.2.tlsFail Err.write)

def tlsFlushPending (fuel : Nat) (w : Flow ε κ) : Option (Flow ε κ) :=
  if w.pending = [] then some w
  else (While.run (flushTurn E O) fuel (w, w.pending)).map fun w => { w with pending := [] }

-- ---- reading ----

-- The writes of a callback.
def writes (fuel : Nat) : List Bytes → Flow ε κ → Option (Flow ε κ)
  | [], w => some w
  | data :: script, w => (w.write E O fuel data).bind fun r => writes fuel script r.2

def onData (fuel : Nat) (b : Bytes) (w : Flow ε κ) : Option (Flow ε κ) :=
  let u := O.onData w.outside b
  writes E O fuel u.1 { w with outside := u.2 }

def onOpen (fuel : Nat) (w : Flow ε κ) : Option (Flow ε κ) :=
  let u := O.onOpen w.outside
  writes E O fuel u.1 { w with outside := u.2 }

def readTurn (fuel : Nat) (w : Flow ε κ) : Option (Flow ε κ) ⊕ Flow ε κ :=
  if !w.ssl then .inl (some w)
  else
    let r := (E.read w.engine w.recvCap).run w.channel
    let c := tlsSendCipher O { w with engine := r.1.2, channel := r.2 }
    if c.1 < 0 then .inl (some c.2)
    else
      match r.1.1 with
      | .data b =>
          match c.2.onData E O fuel b with
          | some w => .inr w
          | none => .inl none
      -- tls_notify_close
      | .eof => .inl (some c.2.reset)
      | .want => .inl (some c.2)
      | .failed => .inl (some (c.2.tlsFail Err.read))

def tlsReadPlain (fuel : Nat) (w : Flow ε κ) : Option (Flow ε κ) :=
  (While.run (readTurn E O fuel) fuel w).join

def pumpTurn (fuel : Nat) (w : Flow ε κ) : Option (Flow ε κ) ⊕ Flow ε κ :=
  if !w.ssl then .inl (some w)
  else
    let r := (E.handshake w.engine).run w.channel
    let c := tlsSendCipher O { w with engine := r.1.2, channel := r.2 }
    if c.1 < 0 then .inl (some c.2)
    else
      match r.1.1 with
      | .done =>
          .inl (({ c.2 with handshakeDone := true }.onOpen E O fuel).bind (tlsReadPlain E O fuel))
      | .wantRead => .inl (some c.2)
      | .wantWrite => .inr c.2
      | .failed => .inl (some (c.2.tlsFail Err.handshake))

def tlsPumpHandshake (fuel : Nat) (w : Flow ε κ) : Option (Flow ε κ) :=
  (While.run (pumpTurn E O fuel) fuel w).join

def sslFeed (data : Bytes) (w : Flow ε κ) : Int × Flow ε κ :=
  let r := w.channel.inbox.feed data
  (r.1, { w with channel := { w.channel with inbox := r.2 } })

def tcpCbData (fuel : Nat) (data : Bytes) (w : Flow ε κ) : Option (Flow ε κ) :=
  if !w.ssl then some w
  else
    let r := w.sslFeed data
    if r.1 ≠ 0 then some (r.2.tlsFail Err.read)
    else if !r.2.handshakeDone then r.2.tlsPumpHandshake E O fuel
    else (r.2.tlsReadPlain E O fuel).bind (tlsFlushPending E O fuel)

end

end Flow

end Sevent.Tls
